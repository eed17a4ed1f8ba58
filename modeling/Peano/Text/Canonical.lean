import Peano.Text.Ranges
namespace Peano.Text

/-- Neighbours in the rows of a table. -/
def pairs : List Char → List (Char × Char)
  | a :: b :: rest => (a, b) :: pairs rest
  | _ => []

/-- The entries of a table of pairs: what the pair makes, its first and its second. -/
def entriesOf (table : List (Nat × List String)) : List (Nat × Nat × Nat) :=
  table.flatMap fun (second, rows) =>
    (pairs (charsOf rows)).map fun (first, made) => (made.toNat, first.toNat, second)

/-- For the second of a pair that composes, the first ones, each with what it makes of them. -/
def compositions : List (Nat × List String) := [
  (0x30A, ["AÅaåUŮuůwẘyẙ"]),
  (0x300, ["AÀEÈIÌOÒUÙaàeèiìoòuùÜǛüǜNǸnǹЕЀИЍеѐиѝĒḔēḕŌṐōṑWẀwẁÂẦâầĂẰăằÊỀêềÔỒôồƠỜơờƯỪưừYỲyỳἀἂἁἃἈἊἉἋἐἒἑἓἘἚἙἛ",
    "ἠἢἡἣἨἪἩἫἰἲἱἳἸἺἹἻὀὂὁὃὈὊὉὋὐὒὑὓὙὛὠὢὡὣὨὪὩὫαὰεὲηὴιὶοὸυὺωὼΑᾺΕῈΗῊ᾿῍ϊῒΙῚ῾῝ϋῢΥῪ¨῭ΟῸΩῺ"]),
  (0x301, ["AÁEÉIÍOÓUÚYÝaáeéiíoóuúyýCĆcćLĹlĺNŃnńRŔrŕSŚsśZŹzźÜǗüǘGǴgǵÅǺåǻÆǼæǽØǾøǿ¨΅ΑΆΕΈΗΉΙΊΟΌΥΎΩΏϊΐαάεέηή",
    "ιίϋΰοόυύωώϒϓГЃКЌгѓкќÇḈçḉĒḖēḗÏḮïḯKḰkḱMḾmḿÕṌõṍŌṒōṓPṔpṕŨṸũṹWẂwẃÂẤâấĂẮăắÊẾêếÔỐôốƠỚơớƯỨưứἀἄἁἅἈἌἉἍἐἔἑἕἘἜ",
    "ἙἝἠἤἡἥἨἬἩἭἰἴἱἵἸἼἹἽὀὄὁὅὈὌὉὍὐὔὑὕὙὝὠὤὡὥὨὬὩὭ᾿῎῾῞"]),
  (0x302, ["AÂEÊIÎOÔUÛaâeêiîoôuûCĈcĉGĜgĝHĤhĥJĴjĵSŜsŝWŴwŵYŶyŷZẐzẑẠẬạậẸỆẹệỌỘọộ"]),
  (0x303, ["AÃNÑOÕaãnñoõIĨiĩUŨuũVṼvṽÂẪâẫĂẴăẵEẼeẽÊỄêễÔỖôỗƠỠơỡƯỮưữYỸyỹ"]),
  (0x308, ["AÄEËIÏOÖUÜaäeëiïoöuüyÿYŸΙΪΥΫιϊυϋϒϔЕЁІЇеёіїАӒаӓӘӚәӛЖӜжӝЗӞзӟИӤиӥОӦоӧӨӪөӫЭӬэӭУӰуӱЧӴчӵЫӸыӹHḦhḧÕṎ",
    "õṏŪṺūṻWẄwẅXẌxẍtẗ"]),
  (0x327, ["CÇcçGĢgģKĶkķLĻlļNŅnņRŖrŗSŞsşTŢtţEȨeȩDḐdḑHḨhḩ"]),
  (0x304, ["AĀaāEĒeēIĪiīOŌoōUŪuūÜǕüǖÄǞäǟȦǠȧǡÆǢæǣǪǬǫǭÖȪöȫÕȬõȭȮȰȯȱYȲyȳИӢиӣУӮуӯGḠgḡḶḸḷḹṚṜṛṝαᾱΑᾹιῑΙῙυῡΥῩ"]),
  (0x306, ["AĂaăEĔeĕGĞgğIĬiĭOŎoŏUŬuŭУЎИЙийуўЖӁжӂАӐаӑЕӖеӗȨḜȩḝẠẶạặαᾰΑᾸιῐΙῘυῠΥῨ"]),
  (0x328, ["AĄaąEĘeęIĮiįUŲuųOǪoǫ"]),
  (0x307, ["CĊcċEĖeėGĠgġIİZŻzżAȦaȧOȮoȯBḂbḃDḊdḋFḞfḟHḢhḣMṀmṁNṄnṅPṖpṗRṘrṙSṠsṡŚṤśṥŠṦšṧṢṨṣṩTṪtṫWẆwẇXẊxẋYẎyẏſẛ"]),
  (0x30C, ["CČcčDĎdďEĚeěLĽlľNŇnňRŘrřSŠsšTŤtťZŽzžAǍaǎIǏiǐOǑoǒUǓuǔÜǙüǚGǦgǧKǨkǩƷǮʒǯjǰHȞhȟ"]),
  (0x30B, ["OŐoőUŰuűУӲуӳ"]), (0x31B, ["OƠoơUƯuư"]), (0x30F, ["AȀaȁEȄeȅIȈiȉOȌoȍRȐrȑUȔuȕѴѶѵѷ"]),
  (0x311, ["AȂaȃEȆeȇIȊiȋOȎoȏRȒrȓUȖuȗ"]), (0x326, ["SȘsșTȚtț"]), (0x653, ["اآ"]), (0x654, ["اأوؤيئەۀہۂےۓ"]),
  (0x655, ["اإ"]), (0x93C, ["नऩरऱळऴ"]), (0x9BE, ["েো"]), (0x9D7, ["েৌ"]), (0xB56, ["େୈ"]), (0xB3E, ["େୋ"]),
  (0xB57, ["େୌ"]), (0xBD7, ["ஒஔெௌ"]), (0xBBE, ["ெொேோ"]), (0xC56, ["ెై"]), (0xCD5, ["ಿೀೆೇೊೋ"]), (0xCD6, ["ೆೈ"]),
  (0xCC2, ["ೆೊ"]), (0xD3E, ["െൊേോ"]), (0xD57, ["െൌ"]), (0xDCA, ["ෙේොෝ"]), (0xDCF, ["ෙො"]), (0xDDF, ["ෙෞ"]),
  (0x102E, ["ဥဦ"]), (0x1B35, ["ᬅᬆᬇᬈᬉᬊᬋᬌᬍᬎᬑᬒᬺᬻᬼᬽᬾᭀᬿᭁᭂᭃ"]), (0x325, ["AḀaḁ"]),
  (0x323, ["BḄbḅDḌdḍHḤhḥKḲkḳLḶlḷMṂmṃNṆnṇRṚrṛSṢsṣTṬtṭVṾvṿWẈwẉZẒzẓAẠaạEẸeẹIỊiịOỌoọƠỢơợUỤuụƯỰưựYỴyỵ"]),
  (0x331, ["BḆbḇDḎdḏKḴkḵLḺlḻNṈnṉRṞrṟTṮtṯZẔzẕhẖ"]), (0x32D, ["DḒdḓEḘeḙLḼlḽNṊnṋTṰtṱUṶuṷ"]),
  (0x330, ["EḚeḛIḬiḭUṴuṵ"]), (0x32E, ["HḪhḫ"]), (0x324, ["UṲuṳ"]),
  (0x309, ["AẢaảÂẨâẩĂẲăẳEẺeẻÊỂêểIỈiỉOỎoỏÔỔôổƠỞơởUỦuủƯỬưửYỶyỷ"]), (0x313, ["αἀΑἈεἐΕἘηἠΗἨιἰΙἸοὀΟὈυὐωὠΩὨρῤ"]),
  (0x314, ["αἁΑἉεἑΕἙηἡΗἩιἱΙἹοὁΟὉυὑΥὙωὡΩὩρῥΡῬ"]),
  (0x342, ["ἀἆἁἇἈἎἉἏἠἦἡἧἨἮἩἯἰἶἱἷἸἾἹἿὐὖὑὗὙὟὠὦὡὧὨὮὩὯαᾶ¨῁ηῆ᾿῏ιῖϊῗ῾῟υῦϋῧωῶ"]),
  (0x345, ["ἀᾀἁᾁἂᾂἃᾃἄᾄἅᾅἆᾆἇᾇἈᾈἉᾉἊᾊἋᾋἌᾌἍᾍἎᾎἏᾏἠᾐἡᾑἢᾒἣᾓἤᾔἥᾕἦᾖἧᾗἨᾘἩᾙἪᾚἫᾛἬᾜἭᾝἮᾞἯᾟὠᾠὡᾡὢᾢὣᾣὤᾤὥᾥὦᾦὧᾧὨᾨὩᾩὪᾪὫᾫὬᾬὭᾭ",
    "ὮᾮὯᾯὰᾲαᾳάᾴᾶᾷΑᾼὴῂηῃήῄῆῇΗῌὼῲωῳώῴῶῷΩῼ"]),
  (0x338, ["←↚→↛↔↮⇐⇍⇔⇎⇒⇏∃∄∈∉∋∌∣∤∥∦∼≁≃≄≅≇≈≉=≠≡≢≍≭<≮>≯≤≰≥≱≲≴≳≵≶≸≷≹≺⊀≻⊁⊂⊄⊃⊅⊆⊈⊇⊉⊢⊬⊨⊭⊩⊮⊫⊯≼⋠≽⋡⊑⋢⊒⋣⊲⋪⊳⋫⊴⋬⊵⋭"]),
  (0x3099, ["かがきぎくぐけげこごさざしじすずせぜそぞただちぢつづてでとどはばひびふぶへべほぼうゔゝゞカガキギクグケゲコゴサザシジスズセゼソゾタダチヂツヅテデトドハバヒビフブヘベホボウヴワヷヰヸヱヹ",
    "ヲヺヽヾ"]),
  (0x309A, ["はぱひぴふぷへぺほぽハパヒピフプヘペホポ"]), (0x110BA, ["𑂙𑂚𑂛𑂜𑂥𑂫"]), (0x11127, ["𑄱𑄮𑄲𑄯"]), (0x1133E, ["𑍇𑍋"]),
  (0x11357, ["𑍇𑍌"]), (0x114BA, ["𑒹𑒻"]), (0x114B0, ["𑒹𑒼"]), (0x114BD, ["𑒹𑒾"]), (0x115AF, ["𑖸𑖺𑖹𑖻"]),
  (0x11930, ["𑤵𑤸"])]

/-- A character with the pair it decomposes into, when the pair composes to it again. -/
def composites : List (Nat × Nat × Nat) := entriesOf compositions

/-- The same for pairs that a character is taken apart into, but that stay apart. -/
def separations : List (Nat × List String) := [
  (0x301, ["\u0308\u0344"]),
  (0x93C, ["\u0915\u0958\u0916\u0959\u0917\u095a\u091c\u095b\u0921\u095c\u0922\u095d\u092b\u095e",
    "\u092f\u095f"]),
  (0x9BC, ["\u09a1\u09dc\u09a2\u09dd\u09af\u09df"]),
  (0xA3C, ["\u0a32\u0a33\u0a38\u0a36\u0a16\u0a59\u0a17\u0a5a\u0a1c\u0a5b\u0a2b\u0a5e"]),
  (0xB3C, ["\u0b21\u0b5c\u0b22\u0b5d"]),
  (0xFB7, ["\u0f42\u0f43\u0f4c\u0f4d\u0f51\u0f52\u0f56\u0f57\u0f5b\u0f5c\u0f92\u0f93\u0f9c\u0f9d",
    "\u0fa1\u0fa2\u0fa6\u0fa7\u0fab\u0fac"]),
  (0xFB5, ["\u0f40\u0f69\u0f90\u0fb9"]), (0xF72, ["\u0f71\u0f73"]), (0xF74, ["\u0f71\u0f75"]),
  (0xF80, ["\u0fb2\u0f76\u0fb3\u0f78\u0f71\u0f81"]), (0x338, ["\u2add\u2adc"]), (0x5B4, ["\u05d9\ufb1d"]),
  (0x5B7, ["\u05f2\ufb1f\u05d0\ufb2e"]), (0x5C1, ["\u05e9\ufb2a\ufb49\ufb2c"]),
  (0x5C2, ["\u05e9\ufb2b\ufb49\ufb2d"]), (0x5B8, ["\u05d0\ufb2f"]),
  (0x5BC, ["\u05d0\ufb30\u05d1\ufb31\u05d2\ufb32\u05d3\ufb33\u05d4\ufb34\u05d5\ufb35\u05d6\ufb36",
    "\u05d8\ufb38\u05d9\ufb39\u05da\ufb3a\u05db\ufb3b\u05dc\ufb3c\u05de\ufb3e\u05e0\ufb40\u05e1\ufb41",
    "\u05e3\ufb43\u05e4\ufb44\u05e6\ufb46\u05e7\ufb47\u05e8\ufb48\u05e9\ufb49\u05ea\ufb4a"]),
  (0x5B9, ["\u05d5\ufb4b"]), (0x5BF, ["\u05d1\ufb4c\u05db\ufb4d\u05e4\ufb4e"]), (0x1D165, ["𝅗𝅗𝅥𝅘𝅘𝅥𝆹𝆹𝅥𝆺𝆺𝅥"]),
  (0x1D16E, ["𝅘𝅥𝅘𝅥𝅮𝆹𝅥𝆹𝅥𝅮𝆺𝅥𝆺𝅥𝅮"]), (0x1D16F, ["𝅘𝅥𝅘𝅥𝅯𝆹𝅥𝆹𝅥𝅯𝆺𝅥𝆺𝅥𝅯"]), (0x1D170, ["𝅘𝅥𝅘𝅥𝅰"]), (0x1D171, ["𝅘𝅥𝅘𝅥𝅱"]), (0x1D172, ["𝅘𝅥𝅘𝅥𝅲"])]

/-- A character with the pair it decomposes into. -/
def decompositions : List (Nat × Nat × Nat) := composites ++ entriesOf separations

/-- Runs of characters that are replaced by one character each. -/
def replacements : List (Nat × List String) := [
  (0x340, ["\u0300\u0301"]), (0x343, ["\u0313"]), (0x374, ["ʹ"]), (0x37E, [";"]), (0x387, ["·"]),
  (0x1F71, ["ά"]), (0x1F73, ["έ"]), (0x1F75, ["ή"]), (0x1F77, ["ί"]), (0x1F79, ["ό"]), (0x1F7B, ["ύ"]),
  (0x1F7D, ["ώ"]), (0x1FBB, ["Ά"]), (0x1FBE, ["ι"]), (0x1FC9, ["Έ"]), (0x1FCB, ["Ή"]), (0x1FD3, ["ΐ"]),
  (0x1FDB, ["Ί"]), (0x1FE3, ["ΰ"]), (0x1FEB, ["Ύ"]), (0x1FEE, ["΅`"]), (0x1FF9, ["Ό"]), (0x1FFB, ["Ώ"]),
  (0x1FFD, ["´"]), (0x2000, ["  "]), (0x2126, ["Ω"]), (0x212A, ["KÅ"]), (0x2329, ["〈〉"]),
  (0xF900, ["豈更車賈滑串句龜龜契金喇奈懶癩羅蘿螺裸邏樂洛烙珞落酪駱亂卵欄爛蘭鸞嵐濫藍襤拉臘蠟廊朗浪狼郎來冷勞擄櫓爐盧老蘆虜路露魯鷺碌祿綠菉錄鹿論壟弄籠聾牢磊賂雷壘屢樓淚漏累縷陋勒肋凜凌稜綾菱陵讀拏",
    "樂諾丹寧怒率異北磻便復不泌數索參塞省葉說殺辰沈拾若掠略亮兩凉梁糧良諒量勵呂女廬旅濾礪閭驪麗黎力曆歷轢年憐戀撚漣煉璉秊練聯輦蓮連鍊列劣咽烈裂說廉念捻殮簾獵令囹寧嶺怜玲瑩羚聆鈴零靈領例禮醴隸惡了僚寮尿",
    "料樂燎療蓼遼龍暈阮劉杻柳流溜琉留硫紐類六戮陸倫崙淪輪律慄栗率隆利吏履易李梨泥理痢罹裏裡里離匿溺吝燐璘藺隣鱗麟林淋臨立笠粒狀炙識什茶刺切度拓糖宅洞暴輻行降見廓兀嗀"]),
  (0xFA10, ["塚"]), (0xFA12, ["晴"]), (0xFA15, ["凞猪益礼神祥福靖精羽"]), (0xFA20, ["蘒"]), (0xFA22, ["諸"]),
  (0xFA25, ["逸都"]), (0xFA2A, ["飯飼館鶴郞隷侮僧免勉勤卑喝嘆器塀墨層屮悔慨憎懲敏既暑梅海渚漢煮爫琢碑社祉祈祐祖祝禍禎穀突節練縉繁署者臭艹艹著褐視謁謹賓贈辶逸難響頻恵𤋮舘"]),
  (0xFA70, ["並况全侀充冀勇勺喝啕喙嗢塚墳奄奔婢嬨廒廙彩徭惘慎愈憎慠懲戴揄搜摒敖晴朗望杖歹殺流滛滋漢瀞煮瞧爵犯猪瑱甆画瘝瘟益盛直睊着磌窱節类絛練缾者荒華蝹襁覆視調諸請謁諾諭謹變贈輸遲醙鉶陼難靖韛響頋",
    "頻鬒龜𢡊𢡄𣏕㮝䀘䀹𥉉𥳐𧻓齃龎"]),
  (0x2F800, ["丽丸乁𠄢你侮侻倂偺備僧像㒞𠘺免兔兤具𠔜㒹內再𠕋冗冤仌冬况𩇟凵刃㓟刻剆割剷㔕勇勉勤勺包匆北卉卑博即卽卿卿卿𠨬灰及叟𠭣叫叱吆咞吸呈周咢哶唐啓啣善善喙喫喳嗂圖嘆圗噑噴切壮城埴堍型堲報墬𡓤売",
    "壷夆多夢奢𡚨𡛪姬娛娧姘婦㛮㛼嬈嬾嬾𡧈寃寘寧寳𡬘寿将当尢㞁屠屮峀岍𡷤嵃𡷦嵮嵫嵼巡巢㠯巽帨帽幩㡢𢆃㡼庰庳庶廊𪎒廾𢌱𢌱舁弢弢㣇𣊸𦇚形彫㣣徚忍志忹悁㤺㤜悔𢛔惇慈慌慎慌慺憎憲憤憯懞懲懶成戛扝抱拔捐𢬌挽拼捨掃",
    "揤𢯱搢揅掩㨮摩摾撝摷㩬敏敬𣀊旣書晉㬙暑㬈㫤冒冕最暜肭䏙朗望朡杞杓𣏃㭉柺枅桒梅𣑭梎栟椔㮝楂榣槪檨𣚣櫛㰘次𣢧歔㱎歲殟殺殻𣪍𡴋𣫺汎𣲼沿泍汧洖派海流浩浸涅𣴞洴港湮㴳滋滇𣻑淹潮𣽞𣾎濆瀹瀞瀛㶖灊災灷炭𠔥煅𤉣熜",
    "𤎫爨爵牐𤘈犀犕𤜵𤠔獺王㺬玥㺸㺸瑇瑜瑱璅瓊㼛甤𤰶甾𤲒異𢆟瘐𤾡𤾸𥁄㿼䀈直𥃳𥃲𥄙𥄳眞真真睊䀹瞋䁆䂖𥐝硎碌磌䃣𥘦祖𥚚𥛅福秫䄯穀穊穏𥥼𥪧𥪧竮䈂𥮫篆築䈧𥲀糒䊠糨糣紀𥾆絣䌁緇縂繅䌴𦈨𦉇䍙𦋙罺𦌾羕翺者𦓚𦔣聠𦖨聰𣍟",
    "䏕育脃䐋脾媵𦞧𦞵𣎓𣎜舁舄辞䑫芑芋芝劳花芳芽苦𦬼若茝荣莭茣莽菧著荓菊菌菜𦰶𦵫𦳕䔫蓱蓳蔖𧏊蕤𦼬䕝䕡𦾱𧃒䕫虐虜虧虩蚩蚈蜎蛢蝹蜨蝫螆䗗蟡蠁䗹衠衣𧙧裗裞䘵裺㒻𧢮𧥦䚾䛇誠諭變豕𧲨貫賁贛起𧼯𠠄跋趼跰𠣞軔輸𨗒𨗭邔",
    "郱鄑𨜮鄛鈸鋗鋘鉼鏹鐕𨯺開䦕閷𨵷䧦雃嶲霣𩅅𩈚䩮䩶韠𩐊䪲𩒖頋頋頩𩖶飢䬳餩馧駂駾䯎𩬰鬒鱀鳽䳎䳭鵧𪃎䳸𪄅𪈎𪊑麻䵖黹黾鼅鼏鼖鼻𪘀"])]

/-- A character with the one character that replaces it. -/
def singletons : List (Nat × Nat) :=
  replacements.flatMap fun (first, rows) => (charsOf rows).zipIdx.map fun (c, i) => (first + i, c.toNat)

/-- Combining classes other than zero, and the ranges of characters that have them. -/
def combiningRanges : List (Nat × List (Nat × Nat)) := [
  (230, ["3:00-14 3D-44 46 4A-4C 50-52 57 5B 63-6F 4:83-87 5:92-95 97-99 9C-A1 A8-A9 AB-AC AF C4 6:10-17 53-54",
    "6:57-5B 5D-5E D6-DC DF-E2 E4 E7-E8 EB-EC 7:30 32-33 35-36 3A 3D 3F-41 43 45 47 49-4A EB-F1 F3",
    "8:16-19 1B-23 25-27 29-2D 98 9C-9F CA-CE D4-E1 E4-E5 E7-E8 EA-EC F3-F5 F7-F8 FB-FF 9:51 53-54 FE",
    "F:82-83 86-87 13:5D-5F 17:DD 19:3A 1A:17 75-7C B0-B4 BB-BC C1-C2 C5-C9 CB-CE 1B:6B 6D-73 1C:D0-D2",
    "1C:DA-DB E0 F4 F8-F9 1D:C0-C1 C3-C9 CB-CC D1-F5 FB FE 20:D0-D1 D4-D7 DB-DC E1 E7 E9 F0 2C:EF-F1",
    "2D:E0-FF A6:6F 74-7D 9E-9F F0-F1 A8:E0-F1 AA:B0 B2-B3 B7-B8 BE-BF C1 FE:20-26 2E-2F 103:76-7A 10A:0F",
    "10A:38 E5 10D:24-27 10E:AB-AC 10F:48-4A 4C 82 84 111:00-02 113:66-6C 70-74 114:5E 16B:30-36",
    "1D1:85-89 AA-AD 1D2:42-44 1E0:00-06 08-18 1B-21 23-24 26-2A 8F 1E1:30-36 1E2:AE EC-EF 1E4:EF",
    "1E9:44-49"]),
  (232, ["3:15 1A 58 1D:F6 30:2C 1E4:EC-ED"]),
  (220, ["3:16-19 1C-20 23-26 29-33 39-3C 47-49 4D-4E 53-56 59-5A 5:91 96 9B A2-A7 AA C5 6:55-56 5C 5F E3 EA",
    "6:ED 7:31 34 37-39 3B-3C 3E 42 44 46 48 F2 FD 8:59-5B 99-9B CF-D3 E3 E6 E9 ED-EF F6 F9-FA 9:52",
    "F:18-19 35 37 C6 10:8D 19:3B 1A:18 7F B5-BA BD BF-C0 C3-C4 CA 1B:6C 1C:D5-D9 DC-DF ED 1D:C2 CA CF F9",
    "1D:FD FF 20:E8 EC-EF A9:2B-2D AA:B4 FE:27-2D 101:FD 102:E0 10A:0D 3A E6 10E:FD-FF 10F:46-47 4B 4D-50",
    "10F:83 85 1D1:7B-82 8A-8B 1E4:EE 1E8:D0-D6"]),
  (216, ["3:1B F:39 1D1:65-66 6E-72"]), (202, ["3:21-22 27-28 1D:D0"]),
  (1, ["3:34-38 1C:D4 E2-E8 20:D2-D3 D8-DA E5-E6 EA-EB 10A:39 16A:F0-F4 1BC:9E 1D1:67-69"]), (240, ["3:45"]),
  (233, ["3:5C 5F 62 1D:FC"]), (234, ["3:5D-5E 60-61 1D:CD"]), (222, ["5:9A AD 19:39 30:2D"]),
  (228, ["5:AE 18:A9 1D:F7-F8 30:2B"]), (10, ["5:B0"]), (11, ["5:B1"]), (12, ["5:B2"]), (13, ["5:B3"]),
  (14, ["5:B4"]), (15, ["5:B5"]), (16, ["5:B6"]), (17, ["5:B7"]), (18, ["5:B8 C7"]), (19, ["5:B9-BA"]),
  (20, ["5:BB"]), (21, ["5:BC"]), (22, ["5:BD"]), (23, ["5:BF"]), (24, ["5:C1"]), (25, ["5:C2"]),
  (30, ["6:18 4E"]), (31, ["6:19 4F"]), (32, ["6:1A 50"]), (27, ["6:4B 8:F0"]), (28, ["6:4C 8:F1"]),
  (29, ["6:4D 8:F2"]), (33, ["6:51"]), (34, ["6:52"]), (35, ["6:70"]), (36, ["7:11"]),
  (7, ["9:3C BC A:3C BC B:3C C:3C BC 10:37 1B:34 E6 1C:37 A9:B3 110:BA 111:73 CA 112:36 E9 113:3B-3C 114:46",
    "114:C3 115:C0 116:B7 118:3A 119:43 11D:42 1E9:4A"]),
  (9, ["9:4D CD A:4D CD B:4D CD C:4D CD D:3B-3C 4D CA E:3A BA F:84 10:39-3A 17:14-15 34 D2 1A:60 1B:44 AA-AB",
    "1B:F2-F3 2D:7F A8:06 2C C4 A9:53 C0 AA:F6 AB:ED 10A:3F 110:46 70 7F B9 111:33-34 C0 112:35 EA 113:4D",
    "114:42 C2 115:BF 116:3F B6 117:2B 118:39 119:3D-3E E0 11A:34 47 99 11C:3F 11D:44-45 97 11F:41-42"]),
  (84, ["C:55"]), (91, ["C:56"]), (103, ["E:38-39"]), (107, ["E:48-4B"]), (118, ["E:B8-B9"]),
  (122, ["E:C8-CB"]), (129, ["F:71"]), (130, ["F:72 7A-7D 80"]), (132, ["F:74"]), (214, ["1D:CE"]),
  (218, ["1D:FA 30:2A"]), (224, ["30:2E-2F"]), (8, ["30:99-9A"]), (26, ["FB:1E"]), (6, ["16F:F0-F1"]),
  (226, ["1D1:6D"])].map fun (cls, rows) => (cls, rangesOf rows)

/-- Characters that stand loosely for a sequence, in ranges, by the number of attaching characters at the
front and at the end of that sequence. -/
def looseEdges : List (Nat × Nat × List (Nat × Nat)) := [
  (0, 1, ["0:A8 AF B4 B8 1:C4-C6 2:D8-DD 3:7A 84 1F:BD BF-C0 FD-FE 20:17 3E 30:9B-9C 32:6E-7E 33:04 07 10 1E 21",
    "33:32 3B 40 4B 4E FB:A4-A5 B0-B1 FC:5B-5D 90 D9 FD:3C-3D FE:49-4C 70-72 74 76-7F 81-8C F5-FA FF:E3",
    "1F2:13"]),
  (0, 2, ["3:85 F:77 79 1F:C1 CD-CF DD-DF ED-EE FC:5E-63 F2-F4"]),
  (1, 1, ["31:33 35-36 3A-3F 4F-63 FF:9E-9F A3 A5-A6 AA-AF C2-C7 CA-CF D2-D7 DA-DC"])].map fun (front, back, rows) => (front, back, rangesOf rows)

def combiningClass (code : Nat) : Nat :=
  if code < 0x300 then 0 else
  match combiningRanges.find? fun (_, ranges) => inRanges ranges code with
  | some (cls, _) => cls
  | none => 0

end Peano.Text
