namespace PromTree.Regex

def generalCategories : List String := [
  "l", "letter", "lu", "uppercaseletter", "ll", "lowercaseletter", "lt", "titlecaseletter", "lc",
  "casedletter", "lm", "modifierletter", "lo", "otherletter", "m", "mark", "combiningmark", "mn",
  "nonspacingmark", "mc", "spacingmark", "me", "enclosingmark", "n", "number", "nd",
  "decimalnumber", "digit", "nl", "letternumber", "no", "othernumber", "p", "punctuation", "punct",
  "pc", "connectorpunctuation", "pd", "dashpunctuation", "ps", "openpunctuation", "pe",
  "closepunctuation", "pi", "initialpunctuation", "pf", "finalpunctuation", "po",
  "otherpunctuation", "s", "symbol", "sm", "mathsymbol", "sc", "currencysymbol", "sk",
  "modifiersymbol", "so", "othersymbol", "z", "separator", "zs", "spaceseparator", "zl",
  "lineseparator", "zp", "paragraphseparator", "c", "other", "cc", "control", "cntrl", "cf",
  "format", "co", "privateuse", "cn", "unassigned", "any", "assigned", "ascii"]

def scripts : List String := [
  "adlam", "adlm", "aghb", "ahom", "anatolianhieroglyphs", "arab", "arabic", "armenian", "armi",
  "armn", "avestan", "avst", "bali", "balinese", "bamu", "bamum", "bass", "bassavah", "batak",
  "batk", "beng", "bengali", "bhaiksuki", "bhks", "bopo", "bopomofo", "brah", "brahmi", "brai",
  "braille", "bugi", "buginese", "buhd", "buhid", "cakm", "canadianaboriginal", "cans", "cari",
  "carian", "caucasianalbanian", "chakma", "cham", "cher", "cherokee", "chorasmian", "chrs",
  "common", "copt", "coptic", "cpmn", "cprt", "cuneiform", "cypriot", "cyprominoan", "cyrillic",
  "cyrl", "deseret", "deva", "devanagari", "diak", "divesakuru", "dogr", "dogra", "dsrt", "dupl",
  "duployan", "egyp", "egyptianhieroglyphs", "elba", "elbasan", "elym", "elymaic", "ethi",
  "ethiopic", "geor", "georgian", "glag", "glagolitic", "gong", "gonm", "goth", "gothic", "gran",
  "grantha", "greek", "grek", "gujarati", "gujr", "gunjalagondi", "gurmukhi", "guru", "han",
  "hang", "hangul", "hani", "hanifirohingya", "hano", "hanunoo", "hatr", "hatran", "hebr",
  "hebrew", "hira", "hiragana", "hluw", "hmng", "hmnp", "hung", "imperialaramaic", "inherited",
  "inscriptionalpahlavi", "inscriptionalparthian", "ital", "java", "javanese", "kaithi", "kali",
  "kana", "kannada", "katakana", "kawi", "kayahli", "khar", "kharoshthi", "khitansmallscript",
  "khmer", "khmr", "khoj", "khojki", "khudawadi", "kits", "knda", "kthi", "lana", "lao", "laoo",
  "latin", "latn", "lepc", "lepcha", "limb", "limbu", "lina", "linb", "lineara", "linearb", "lisu",
  "lyci", "lycian", "lydi", "lydian", "mahajani", "mahj", "maka", "makasar", "malayalam", "mand",
  "mandaic", "mani", "manichaean", "marc", "marchen", "masaramgondi", "medefaidrin", "medf",
  "meeteimayek", "mend", "mendekikakui", "merc", "mero", "meroiticcursive", "meroitichieroglyphs",
  "miao", "mlym", "modi", "mong", "mongolian", "mro", "mroo", "mtei", "mult", "multani", "myanmar",
  "mymr", "nabataean", "nagm", "nagmundari", "nand", "nandinagari", "narb", "nbat", "newa",
  "newtailue", "nko", "nkoo", "nshu", "nushu", "nyiakengpuachuehmong", "ogam", "ogham", "olchiki",
  "olck", "oldhungarian", "olditalic", "oldnortharabian", "oldpermic", "oldpersian", "oldsogdian",
  "oldsoutharabian", "oldturkic", "olduyghur", "oriya", "orkh", "orya", "osage", "osge", "osma",
  "osmanya", "ougr", "pahawhhmong", "palm", "palmyrene", "pauc", "paucinhau", "perm", "phag",
  "phagspa", "phli", "phlp", "phnx", "phoenician", "plrd", "prti", "psalterpahlavi", "qaac",
  "qaai", "rejang", "rjng", "rohg", "runic", "runr", "samaritan", "samr", "sarb", "saur",
  "saurashtra", "sgnw", "sharada", "shavian", "shaw", "shrd", "sidd", "siddham", "signwriting",
  "sind", "sinh", "sinhala", "sogd", "sogdian", "sogo", "sora", "sorasompeng", "soyo", "soyombo",
  "sund", "sundanese", "sylo", "sylotinagri", "syrc", "syriac", "tagalog", "tagb", "tagbanwa",
  "taile", "taitham", "taiviet", "takr", "takri", "tale", "talu", "tamil", "taml", "tang",
  "tangsa", "tangut", "tavt", "telu", "telugu", "tfng", "tglg", "thaa", "thaana", "thai",
  "tibetan", "tibt", "tifinagh", "tirh", "tirhuta", "tnsa", "toto", "ugar", "ugaritic", "unknown",
  "vai", "vaii", "vith", "vithkuqi", "wancho", "wara", "warangciti", "wcho", "xpeo", "xsux",
  "yezi", "yezidi", "yi", "yiii", "zanabazarsquare", "zanb", "zinh", "zyyy", "zzzz"]

def binaryProperties : List String := [
  "ahex", "alpha", "alphabetic", "asciihexdigit", "bidic", "bidicontrol", "bidim", "bidimirrored",
  "cased", "caseignorable", "changeswhencasefolded", "changeswhencasemapped",
  "changeswhenlowercased", "changeswhentitlecased", "changeswhenuppercased", "ci", "cwcf", "cwcm",
  "cwl", "cwt", "cwu", "dash", "defaultignorablecodepoint", "dep", "deprecated", "di", "dia",
  "diacritic", "ebase", "ecomp", "emod", "emoji", "emojicomponent", "emojimodifier",
  "emojimodifierbase", "emojipresentation", "epres", "ext", "extendedpictographic", "extender",
  "extpict", "graphemebase", "graphemeextend", "grbase", "grext", "hex", "hexdigit", "idc",
  "idcontinue", "ideo", "ideographic", "ids", "idsb", "idsbinaryoperator", "idst",
  "idstart", "idstrinaryoperator", "joinc", "joincontrol", "loe", "logicalorderexception", "lower",
  "lowercase", "math", "nchar", "noncharactercodepoint", "patsyn", "patternsyntax",
  "patternwhitespace", "patws", "pcm", "prependedconcatenationmark", "qmark", "quotationmark",
  "radical", "regionalindicator", "ri", "sd", "sentenceterminal", "softdotted", "space", "sterm",
  "term", "terminalpunctuation", "uideo", "unifiedideograph", "upper", "uppercase", "variationselector",
  "vs", "whitespace", "wspace", "xidc", "xidcontinue", "xids", "xidstart"]

def ages : List String := [
  "v11", "v20", "v21", "v30", "v31", "v32", "v40", "v41", "v50", "v51", "v52", "v60", "v61", "v62",
  "v63", "v70", "v80", "v90", "v100", "v110", "v120", "v121", "v130", "v140", "v150", "v151",
  "v160", "1.1", "2.0", "2.1", "3.0", "3.1", "3.2", "4.0", "4.1", "5.0", "5.1", "5.2", "6.0", "6.1",
  "6.2", "6.3", "7.0", "8.0", "9.0", "10.0", "11.0", "12.0", "12.1", "13.0", "14.0", "15.0",
  "15.1", "16.0"]

def graphemeBreaks : List String := [
  "control", "cn", "cr", "ebase", "ebasegaz", "emodifier", "extend", "ex", "glueafterzwj", "gaz",
  "l", "lf", "lv", "lvt", "prepend", "pp", "regionalindicator", "ri", "spacingmark", "sm", "t", "v",
  "zwj"]

def wordBreaks : List String := [
  "aletter", "le", "cr", "doublequote", "dq", "extend", "extendnumlet", "ex", "format", "fo",
  "hebrewletter", "hl", "katakana", "ka", "lf", "midletter", "ml", "midnum", "mn", "midnumlet",
  "mb", "newline", "nl", "numeric", "nu", "regionalindicator", "ri", "singlequote", "sq",
  "wsegspace", "zwj"]

def sentenceBreaks : List String := [
  "aterm", "at", "close", "cl", "cr", "extend", "ex", "format", "fo", "lf", "lower", "lo",
  "numeric", "nu", "oletter", "le", "scontinue", "sc", "sep", "se", "sp", "sterm", "st", "upper",
  "up"]

def normalizeName (name : List Char) : String :=
  let kept := (name.filter fun c => !(c == ' ' || c == '_' || c == '-')).map Char.toLower
  match kept with
  | 'i' :: 's' :: rest => if rest = ['c'] ∨ rest = [] then String.ofList kept else String.ofList rest
  | _ => String.ofList kept

def isProperty (name : List Char) : Bool :=
  let n := normalizeName name
  generalCategories.contains n || scripts.contains n || binaryProperties.contains n

def isPropertyValue (property value : List Char) : Bool :=
  let v := normalizeName value
  match normalizeName property with
  | "gc" | "generalcategory" => generalCategories.contains v
  | "sc" | "script" | "scx" | "scriptextensions" => scripts.contains v
  | "age" => ages.contains v
  | "gcb" | "graphemeclusterbreak" => graphemeBreaks.contains v
  | "wb" | "wordbreak" => wordBreaks.contains v
  | "sb" | "sentencebreak" => sentenceBreaks.contains v
  | _ => false

end PromTree.Regex
