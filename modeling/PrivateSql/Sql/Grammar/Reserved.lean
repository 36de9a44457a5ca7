/-!
# Reserved words

Words that are not taken for a name when they follow a selected term or a table without `AS`, since
they may go on the query; and words that stand for something when they begin a term.
-/

namespace PrivateSql.Sql.Grammar

/-- Words that begin a clause, after a selected term as after a table. -/
def reservedClauses : List String :=
  ["WITH", "EXPLAIN", "ANALYZE", "SELECT", "WHERE", "GROUP", "SORT", "HAVING", "ORDER", "TOP",
    "LATERAL", "VIEW", "LIMIT", "OFFSET", "FETCH", "UNION", "EXCEPT", "INTERSECT", "CLUSTER",
    "DISTRIBUTE", "END"]

/-- Words that do not name what is selected. -/
def reservedAfterTerm : List String := reservedClauses ++ ["RETURNING", "FROM", "INTO"]

/-- Words that do not name a table. -/
def reservedAfterTable : List String :=
  reservedClauses ++
    ["PIVOT", "UNPIVOT", "ON", "JOIN", "INNER", "CROSS", "FULL", "LEFT", "RIGHT", "NATURAL",
      "USING", "OUTER", "SET", "QUALIFY", "WINDOW", "FOR", "PARTITION", "START",
      "CONNECT", "MATCH_RECOGNIZE"]

/-- Functions that are called without parentheses. -/
def bareFunctions : List String := ["CURRENT_CATALOG", "CURRENT_USER", "SESSION_USER", "USER"]

/-- Functions of time, called with or without parentheses. -/
def timeFunctions : List String :=
  ["CURRENT_TIMESTAMP", "CURRENT_TIME", "CURRENT_DATE", "LOCALTIME", "LOCALTIMESTAMP"]

end PrivateSql.Sql.Grammar
