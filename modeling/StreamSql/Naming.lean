import StreamSql.Text
import StreamSql.Text.Upper

namespace StreamSql.Naming

structure Irregular where
  singular : List Char
  plural : List Char

def irregulars : List Irregular :=
  [("person", "people"), ("man", "men"), ("woman", "women"), ("child", "children"),
   ("mouse", "mice"), ("goose", "geese"), ("foot", "feet"), ("tooth", "teeth"), ("ox", "oxen"),
   ("datum", "data"), ("index", "indices")].map fun (s, p) => ⟨s.toList, p.toList⟩

def uncountables : List (List Char) :=
  ["equipment", "information", "rice", "money", "species", "series", "fish", "sheep", "news",
   "data"].map String.toList

/-- The lower case of a character, as far as the rules look at it: of the characters outside ASCII
only two have an ASCII letter in it. -/
def lower (c : Char) : List Char :=
  if c = '\u0130' then ['i', '\u0307']
  else if c = '\u212A' then ['k']
  else [c.toLower]

def lowered (name : List Char) : List Char := name.flatMap lower

def stem (n : Nat) (name : List Char) : List Char := name.take (name.length - n)

def ending (n : Nat) (name : List Char) : List Char := name.drop (name.length - n)

/-- Whether the last `n` characters are a word: they are the whole name, or follow an underscore, or
start with a capital. -/
def isWord (n : Nat) (name : List Char) : Bool :=
  (stem n name).isEmpty || (stem n name).getLast? = some '_' ||
    (ending n name).head?.any Text.isUpper

def endsInWord (word name : List Char) : Bool :=
  word.isSuffixOf (lowered name) && isWord word.length name

def isCapital (c : Char) : Bool := !c.isAlpha || Text.isUpper c

/-- `replacement` in the case of what it replaces: all capitals, a first capital, or none. -/
def matchCase (replaced replacement : List Char) : List Char :=
  if replaced.all isCapital then replacement.map Char.toUpper
  else match replaced, replacement with
    | o :: _, r :: rs => if Text.isUpper o then r.toUpper :: rs else replacement
    | _, _ => replacement

def Irregular.plural? (w : Irregular) (name : List Char) : Option (List Char) :=
  let n := w.singular.length
  if endsInWord w.singular name then some (stem n name ++ matchCase (ending n name) w.plural)
  else if endsInWord w.plural name then some name
  else none

def hasEnding (word : String) (low : List Char) : Bool := word.toList.isSuffixOf low

/-- Whether a name looks plural: it ends in `ies`, `ches`, `shes`, or in a single `s` that is not
that of `us` or `is`. -/
def isPlural (low : List Char) : Bool :=
  hasEnding "ies" low || hasEnding "ches" low || hasEnding "shes" low ||
    (hasEnding "s" low && !hasEnding "ss" low && !hasEnding "us" low && !hasEnding "is" low &&
      low ≠ ['s'])

def isVowel (c : Char) : Bool := "aeiou".toList.contains c

def regular (low : List Char) : Nat × String :=
  if hasEnding "y" low && !(low.dropLast.getLast?.any isVowel) then (1, "ies")
  else if hasEnding "is" low && low ≠ ['i', 's'] then (2, "es")
  else if hasEnding "s" low || hasEnding "x" low || hasEnding "z" low || hasEnding "ch" low ||
      hasEnding "sh" low then (0, "es")
  else if hasEnding "fe" low then (2, "ves")
  else if hasEnding "f" low && !hasEnding "ff" low then (1, "ves")
  else (0, "s")

def regularPlural (name : List Char) : List Char :=
  let (n, put) := regular (lowered name)
  let capitals := name.getLast?.any Text.isUpper
  stem n name ++ if capitals then put.toList.map Char.toUpper else put.toList

def pluralChars (name : List Char) : List Char :=
  if name.isEmpty then []
  else if uncountables.any (endsInWord · name) then name
  else match irregulars.findSome? (·.plural? name) with
    | some plural => plural
    | none => if isPlural (lowered name) then name else regularPlural name

def pluralize (name : String) : String := .ofList (pluralChars name.toList)

def entityName (plural : Bool) (base : String) : String := if plural then pluralize base else base

end StreamSql.Naming
