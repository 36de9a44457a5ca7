/-!
# Layers of the normal density

The area below the standard normal density is cut into 256 layers of one size. A point of a layer,
whose width is known, is found with one multiplication; so the widths of the layers are what draws
of Gaussian noise need.

* `layerWidths` — the half width of each layer, in units of `10 ^ (-18)`.
-/

namespace PrivateSql

/-- The half width of each layer from the lowest to the highest, in units of `10 ^ (-18)`. -/
def layerWidths : Array Nat := #[
    3910757959537090045, 3654152885361008796, 3449278298560964462, 3320244733839166074,
    3224575052047029100, 3147889289517149969, 3083526132001233044, 3027837791768635434,
    2978603279880844834, 2934366867207854224, 2894121053612348060, 2857138730872132548,
    2822877396825325125, 2790921174000785765, 2760944005278822555, 2732685359042827056,
    2705933656121858100, 2680514643284522158, 2656283037575502437, 2633116393630324570,
    2610910518487548515, 2589575986706995181, 2569035452680536569, 2549221550323460761,
    2530075232158516929, 2511544441625342294, 2493583041269680667, 2476149939669143318,
    2459208374333311298, 2442725318198956774, 2426670984935725972, 2411018413899685520,
    2395743119780480601, 2380822795170626005, 2366237056715818632, 2351967227377659952,
    2337996148795031370, 2324308018869623016, 2310888250599850036, 2297723348901329565,
    2284800802722946056, 2272108990226823888, 2259637095172217780, 2247375032945807760,
    2235313384928327984, 2223443340090905718, 2211756642882544366, 2200245546609647995,
    2188902771624720689, 2177721467738641614, 2166695180352645966, 2155817819875063268,
    2145083634046203613, 2134487182844320152, 2124023315687815661, 2113687150684933957,
    2103474055713146829, 2093379631137050279, 2083399693996551783, 2073530263516978778,
    2063767547809956415, 2054107931648864849, 2044547965215732788, 2035084353727808715,
    2025713947862032960, 2016433734904371722, 2007240830558684852, 1998132471356564244,
    1989106007615571325, 1980158896898598364, 1971288697931769640, 1962493064942461896,
    1953769742382734043, 1945116560006753925, 1936531428273758904, 1928012334050718257,
    1919557336591228847, 1911164563769282232, 1902832208548446369, 1894558525668710081,
    1886341828534776388, 1878180486290977669, 1870072921069236838, 1862017605397632281,
    1854013059758148119, 1846057850283119750, 1838150586580728607, 1830289919680666566,
    1822474540091783224, 1814703175964167636, 1806974591348693426, 1799287584547580199,
    1791640986550010028, 1784033659547276329, 1776464495522344977, 1768932414909077933,
    1761436365316706665, 1753975320315455111, 1746548278279492994, 1739154261283669012,
    1731792314050707216, 1724461502945775715, 1717160915015540690, 1709889657069006086,
    1702646854797613907, 1695431651932238548, 1688243209434858727, 1681080704722823338,
    1673943330923760353, 1666830296159286684, 1659740822855789499, 1652674147080648526,
    1645629517902360339, 1638606196773111146, 1631603456932422036, 1624620582830568427,
    1617656869570534228, 1610711622367333673, 1603784156023583041, 1596873794420261339,
    1589979870021648534, 1583101723393471438, 1576238702733332886, 1569390163412534456,
    1562555467528439657, 1555733983466554893, 1548925085471535512, 1542128153226347553,
    1535342571438843118, 1528567729435024614, 1521803020758293101, 1515047842773992404,
    1508301596278571965, 1501563685112706548, 1494833515777718391, 1488110497054654369,
    1481394039625375747, 1474683555695025516, 1467978458615230908, 1461278162507407830,
    1454582081885523293, 1447889631277669675, 1441200224845798017, 1434513276002946425,
    1427828197027290358, 1421144398672323117, 1414461289772464658, 1407778276843371534,
    1401094763676202559, 1394410150925071257, 1387723835686884621, 1381035211072741964,
    1374343665770030531, 1367648583594317957, 1360949343030101844, 1354245316759430606,
    1347535871177359290, 1340820365893152122, 1334098153216083604, 1327368577624624679,
    1320630975217730096, 1313884673146868964, 1307128989027353860, 1300363230327433728,
    1293586693733517645, 1286798664489786415, 1279998415710333237, 1273185207661843732,
    1266358287014688333, 1259516886060144225, 1252660221891297887, 1245787495544997903,
    1238897891102027415, 1231990574742445110, 1225064693752808020, 1218119375481726552,
    1211153726239911244, 1204166830140560140, 1197157747875585931, 1190125515422801650,
    1183069142678760732, 1175987612011489825, 1168879876726833800, 1161744859441574240,
    1154581450355851802, 1147388505416733873, 1140164844363995789, 1132909248648336975,
    1125620459211294389, 1118297174115062909, 1110938046009249502, 1103541679420268151,
    1096106627847603487, 1088631390649514197, 1081114409698889389, 1073554065787871714,
    1065948674757506653, 1058296483326006454, 1050595664586207123, 1042844313139370538,
    1035040439828605274, 1027181966030751292, 1019266717460529215, 1011292417434978441,
    1003256679539591412, 995156999629943084, 986990747093846266, 978755155288937750,
    970447311058864615, 962064143217605250, 953602409875572654, 945058684462571130,
    936429340280896860, 927710533396234771, 918898183643734989, 909987953490768997,
    900975224455174528, 891855070726792376, 882622229578910122, 873271068082494550,
    863795545546826915, 854189171001560554, 844444954902423661, 834555354079518752,
    824512208745288633, 814306670128064347, 803929116982664893, 793369058833152785,
    782615023299588763, 771654424216739354, 760473406422083165, 749056662009581653,
    737387211425838629, 725446140901303549, 713212285182022732, 700661841097584448,
    687767892786257717, 674499822827436479, 660822574234205984, 646695714884388928,
    632072236375024632, 616896989996235545, 601104617743940417, 584616766093722262,
    567338257040473026, 549151702313026790, 529909720646495108, 509423329585933393,
    487443966121754335, 463634336771763245, 437518402186662658, 408389134588000746,
    375121332850465727, 335737519180459465, 286174591747260509, 215241895913273806]

end PrivateSql
