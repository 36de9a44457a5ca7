import PrivateSql.Sql.Token
/-!
# The keywords of the language

Every word that stands for something somewhere in the language of queries. Most of them are names
like any other where a name is read; a constant that is written with the name of its type before it
takes only what is no keyword.

* `Word.isKeyword` — may a word stand for a keyword at all?
-/

namespace PrivateSql.Sql

/-- The keywords, in upper case. -/
def keywords : List String :=
  ["ABORT", "ABS", "ABSOLUTE", "ACTION", "ADD", "ADMIN", "AFTER", "AGAINST", "AGGREGATION",
    "ALL", "ALLOCATE", "ALTER", "ALWAYS", "ANALYZE", "AND", "ANTI", "ANY", "APPLY", "ARCHIVE",
    "ARE", "ARRAY", "ARRAY_MAX_CARDINALITY", "AS", "ASC", "ASENSITIVE", "ASSERT", "ASYMMETRIC",
    "AT", "ATOMIC", "ATTACH", "AUTHORIZATION", "AUTO", "AUTOINCREMENT", "AUTO_INCREMENT", "AVG",
    "AVRO",
    "BACKWARD", "BASE64", "BEGIN", "BEGIN_FRAME", "BEGIN_PARTITION", "BETWEEN", "BIGDECIMAL",
    "BIGINT", "BIGNUMERIC", "BINARY", "BLOB", "BLOOMFILTER", "BOOL", "BOOLEAN", "BOTH", "BROWSE",
    "BTREE", "BUCKETS", "BY", "BYPASSRLS", "BYTEA", "BYTES",
    "CACHE", "CALL", "CALLED", "CARDINALITY", "CASCADE", "CASCADED", "CASE", "CAST", "CEIL",
    "CEILING", "CENTURY", "CHAIN", "CHANGE", "CHANNEL", "CHAR", "CHARACTER", "CHARACTERS",
    "CHARACTER_LENGTH", "CHARSET", "CHAR_LENGTH", "CHECK", "CLOB", "CLONE", "CLOSE", "CLUSTER",
    "CLUSTERED", "COALESCE", "COLLATE", "COLLATION", "COLLECT", "COLLECTION", "COLUMN", "COLUMNS",
    "COLUMNSTORE", "COMMENT", "COMMIT", "COMMITTED", "COMPRESSION", "COMPUTE", "CONCURRENTLY",
    "CONDITION", "CONFLICT", "CONNECT", "CONNECTION", "CONSTRAINT", "CONTAINS", "CONVERT", "COPY",
    "COPY_OPTIONS", "CORR", "CORRESPONDING", "COUNT", "COVAR_POP", "COVAR_SAMP", "CREATE",
    "CREATEDB", "CREATEROLE", "CREDENTIALS", "CROSS", "CSV", "CUBE", "CUME_DIST", "CURRENT",
    "CURRENT_CATALOG", "CURRENT_DATE", "CURRENT_DEFAULT_TRANSFORM_GROUP", "CURRENT_PATH",
    "CURRENT_ROLE", "CURRENT_ROW", "CURRENT_SCHEMA", "CURRENT_TIME", "CURRENT_TIMESTAMP",
    "CURRENT_TRANSFORM_GROUP_FOR_TYPE", "CURRENT_USER", "CURSOR", "CYCLE",
    "DATA", "DATABASE", "DATA_RETENTION_TIME_IN_DAYS", "DATE", "DATETIME", "DAY", "DAYOFWEEK",
    "DAYOFYEAR", "DEALLOCATE", "DEC", "DECADE", "DECIMAL", "DECLARE", "DEFAULT",
    "DEFAULT_DDL_COLLATION", "DEFERRABLE", "DEFERRED", "DEFINE", "DEFINED", "DELAYED", "DELETE",
    "DELIMITED", "DELIMITER", "DELTA", "DENSE_RANK", "DEREF", "DESC", "DESCRIBE", "DETACH",
    "DETAIL", "DETERMINISTIC", "DIRECTORY", "DISABLE", "DISCARD", "DISCONNECT", "DISTINCT",
    "DISTRIBUTE", "DIV", "DO", "DOUBLE", "DOW", "DOY", "DROP", "DRY", "DUPLICATE", "DYNAMIC",
    "EACH", "ELEMENT", "ELEMENTS", "ELSE", "EMPTY", "ENABLE", "ENABLE_SCHEMA_EVOLUTION",
    "ENCODING", "ENCRYPTION", "END", "END_EXEC", "ENDPOINT", "END_FRAME", "END_PARTITION",
    "ENFORCED", "ENGINE", "ENUM", "EPOCH", "EQUALS", "ERROR", "ESCAPE", "ESCAPED", "EVENT",
    "EVERY", "EXCEPT", "EXCEPTION", "EXCLUDE", "EXCLUSIVE", "EXEC", "EXECUTE", "EXISTS", "EXP",
    "EXPANSION", "EXPLAIN", "EXTENDED", "EXTENSION", "EXTERNAL", "EXTRACT",
    "FAIL", "FALSE", "FETCH", "FIELDS", "FILE", "FILES", "FILE_FORMAT", "FILTER", "FIRST",
    "FIRST_VALUE", "FLOAT", "FLOAT4", "FLOAT64", "FLOAT8", "FLOOR", "FLUSH", "FOLLOWING", "FOR",
    "FORCE", "FORCE_NOT_NULL", "FORCE_NULL", "FORCE_QUOTE", "FOREIGN", "FORMAT", "FORMATTED",
    "FORWARD", "FRAME_ROW", "FREE", "FREEZE", "FROM", "FULL", "FULLTEXT", "FUNCTION", "FUNCTIONS",
    "FUSION",
    "GENERAL", "GENERATE", "GENERATED", "GEOGRAPHY", "GET", "GLOBAL", "GRANT", "GRANTED",
    "GRAPHVIZ", "GROUP", "GROUPING", "GROUPS",
    "HASH", "HAVING", "HEADER", "HIGH_PRIORITY", "HISTORY", "HIVEVAR", "HOLD", "HOUR", "HOURS",
    "IDENTITY", "IF", "IGNORE", "ILIKE", "IMMEDIATE", "IMMUTABLE", "IN", "INCLUDE",
    "INCLUDE_NULL_VALUES", "INCREMENT", "INDEX", "INDICATOR", "INHERIT", "INITIALLY", "INNER",
    "INOUT", "INPUTFORMAT", "INSENSITIVE", "INSERT", "INSTALL", "INT", "INT2", "INT4", "INT64",
    "INT8", "INTEGER", "INTERSECT", "INTERSECTION", "INTERVAL", "INTO", "IS", "ISODOW",
    "ISOLATION", "ISOWEEK", "ISOYEAR", "ITEMS",
    "JAR", "JOIN", "JSON", "JSONB", "JSONFILE", "JSON_TABLE", "JULIAN",
    "KEY", "KEYS", "KILL",
    "LAG", "LANGUAGE", "LARGE", "LAST", "LAST_VALUE", "LATERAL", "LEAD", "LEADING", "LEFT",
    "LEVEL", "LIKE", "LIKE_REGEX", "LIMIT", "LINES", "LISTAGG", "LN", "LOAD", "LOCAL",
    "LOCALTIME", "LOCALTIMESTAMP", "LOCATION", "LOCK", "LOCKED", "LOGIN", "LOGS", "LOWER",
    "LOW_PRIORITY",
    "MACRO", "MANAGEDLOCATION", "MATCH", "MATCHED", "MATCHES", "MATCH_RECOGNIZE", "MATERIALIZED",
    "MAX", "MAXVALUE", "MAX_DATA_EXTENSION_TIME_IN_DAYS", "MEASURES", "MEDIUMINT", "MEMBER",
    "MERGE", "METADATA", "METHOD", "MICROSECOND", "MICROSECONDS", "MILLENIUM", "MILLENNIUM",
    "MILLISECOND", "MILLISECONDS", "MIN", "MINUTE", "MINVALUE", "MOD", "MODE", "MODIFIES",
    "MODIFY", "MODULE", "MONTH", "MSCK", "MULTISET", "MUTATION",
    "NAME", "NANOSECOND", "NANOSECONDS", "NATIONAL", "NATURAL", "NCHAR", "NCLOB", "NEW", "NEXT",
    "NO", "NOBYPASSRLS", "NOCREATEDB", "NOCREATEROLE", "NOINHERIT", "NOLOGIN", "NONE",
    "NOREPLICATION", "NORMALIZE", "NOSCAN", "NOSUPERUSER", "NOT", "NOTHING", "NOWAIT",
    "NO_WRITE_TO_BINLOG", "NTH_VALUE", "NTILE", "NULL", "NULLIF", "NULLS", "NUMERIC", "NVARCHAR",
    "OBJECT", "OCCURRENCES_REGEX", "OCTETS", "OCTET_LENGTH", "OF", "OFFSET", "OLD", "OMIT", "ON",
    "ONE", "ONLY", "OPEN", "OPERATOR", "OPTIMIZER_COSTS", "OPTION", "OPTIONS", "OR", "ORC",
    "ORDER", "OUT", "OUTER", "OUTPUTFORMAT", "OVER", "OVERFLOW", "OVERLAPS", "OVERLAY",
    "OVERWRITE", "OWNED", "OWNER",
    "PARALLEL", "PARAMETER", "PARQUET", "PARTITION", "PARTITIONED", "PARTITIONS", "PASSWORD",
    "PAST", "PATH", "PATTERN", "PER", "PERCENT", "PERCENTILE_CONT", "PERCENTILE_DISC",
    "PERCENT_RANK", "PERIOD", "PERSISTENT", "PIVOT", "PLACING", "PLANS", "PORTION", "POSITION",
    "POSITION_REGEX", "POWER", "PRAGMA", "PRECEDES", "PRECEDING", "PRECISION", "PREPARE",
    "PRESERVE", "PRIMARY", "PRIOR", "PRIVILEGES", "PROCEDURE", "PROGRAM", "PURGE",
    "QUALIFY", "QUARTER", "QUERY", "QUOTE",
    "RANGE", "RANK", "RAW", "RCFILE", "READ", "READS", "READ_ONLY", "REAL", "RECURSIVE", "REF",
    "REFERENCES", "REFERENCING", "REGCLASS", "REGEXP", "REGR_AVGX", "REGR_AVGY", "REGR_COUNT",
    "REGR_INTERCEPT", "REGR_R2", "REGR_SLOPE", "REGR_SXX", "REGR_SXY", "REGR_SYY", "RELATIVE",
    "RELAY", "RELEASE", "RENAME", "REORG", "REPAIR", "REPEATABLE", "REPLACE", "REPLICA",
    "REPLICATION", "RESET", "RESPECT", "RESTART", "RESTRICT", "RESTRICTED", "RESULT", "RESULTSET",
    "RETURN", "RETURNING", "RETURNS", "REVOKE", "RIGHT", "RLIKE", "ROLE", "ROLLBACK", "ROLLUP",
    "ROOT", "ROW", "ROWID", "ROWS", "ROW_NUMBER", "RULE", "RUN",
    "SAFE", "SAFE_CAST", "SAVEPOINT", "SCHEMA", "SCOPE", "SCROLL", "SEARCH", "SECOND", "SECRET",
    "SECURITY", "SELECT", "SEMI", "SENSITIVE", "SEQUENCE", "SEQUENCEFILE", "SEQUENCES", "SERDE",
    "SERDEPROPERTIES", "SERIALIZABLE", "SESSION", "SESSION_USER", "SET", "SETS", "SHARE", "SHOW",
    "SIMILAR", "SKIP", "SLOW", "SMALLINT", "SNAPSHOT", "SOME", "SORT", "SPATIAL", "SPECIFIC",
    "SPECIFICTYPE", "SQL", "SQLEXCEPTION", "SQLSTATE", "SQLWARNING", "SQRT", "STABLE", "STAGE",
    "START", "STATEMENT", "STATIC", "STATISTICS", "STATUS", "STDDEV_POP", "STDDEV_SAMP", "STDIN",
    "STDOUT", "STORAGE_INTEGRATION", "STORED", "STRICT", "STRING", "STRUCT", "SUBMULTISET",
    "SUBSTRING", "SUBSTRING_REGEX", "SUCCEEDS", "SUM", "SUPER", "SUPERUSER", "SWAP", "SYMMETRIC",
    "SYNC", "SYSTEM", "SYSTEM_TIME", "SYSTEM_USER",
    "TABLE", "TABLES", "TABLESAMPLE", "TARGET", "TBLPROPERTIES", "TEMP", "TEMPORARY",
    "TERMINATED", "TEXT", "TEXTFILE", "THEN", "TIES", "TIME", "TIMESTAMP", "TIMESTAMPTZ",
    "TIMETZ", "TIMEZONE", "TIMEZONE_ABBR", "TIMEZONE_HOUR", "TIMEZONE_MINUTE", "TIMEZONE_REGION",
    "TINYINT", "TO", "TOP", "TRAILING", "TRANSACTION", "TRANSIENT", "TRANSLATE",
    "TRANSLATE_REGEX", "TRANSLATION", "TREAT", "TRIGGER", "TRIM", "TRIM_ARRAY", "TRUE",
    "TRUNCATE", "TRY_CAST", "TYPE",
    "UESCAPE", "UNBOUNDED", "UNCACHE", "UNCOMMITTED", "UNION", "UNIQUE", "UNKNOWN", "UNLOAD",
    "UNLOCK", "UNLOGGED", "UNNEST", "UNPIVOT", "UNSAFE", "UNSIGNED", "UNTIL", "UPDATE", "UPPER",
    "URL", "USAGE", "USE", "USER", "USER_RESOURCES", "USING", "UUID",
    "VACUUM", "VALID", "VALIDATION_MODE", "VALUE", "VALUES", "VALUE_OF", "VARBINARY", "VARCHAR",
    "VARIABLES", "VARYING", "VAR_POP", "VAR_SAMP", "VERBOSE", "VERSION", "VERSIONING", "VIEW",
    "VIRTUAL", "VOLATILE",
    "WAREHOUSE", "WEEK", "WHEN", "WHENEVER", "WHERE", "WIDTH_BUCKET", "WINDOW", "WITH", "WITHIN",
    "WITHOUT", "WITHOUT_ARRAY_WRAPPER", "WORK", "WRITE",
    "XML", "XOR",
    "YEAR",
    "ZONE"]

/-- Does a word stand for a keyword somewhere? Quoted words never do. -/
def Word.isKeyword (w : Word) : Bool := keywords.contains w.keyword

end PrivateSql.Sql
