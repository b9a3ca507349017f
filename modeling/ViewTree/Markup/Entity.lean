/-!
# Character entities of attribute values

Four characters may be written by name, and two more by number where a browser would write them
so. Decoding goes once over the text: what an entity stands for is not read again.
-/

namespace ViewTree.Markup

/-- The text with its entities replaced; `newlines` admits the numeric ones of line feed and
tab. -/
def decodeEntities (newlines : Bool) : List Char → List Char
  | '&' :: 'l' :: 't' :: ';' :: cs => '<' :: decodeEntities newlines cs
  | '&' :: 'g' :: 't' :: ';' :: cs => '>' :: decodeEntities newlines cs
  | '&' :: 'q' :: 'u' :: 'o' :: 't' :: ';' :: cs => '"' :: decodeEntities newlines cs
  | '&' :: 'a' :: 'm' :: 'p' :: ';' :: cs => '&' :: decodeEntities newlines cs
  | '&' :: '#' :: '1' :: '0' :: ';' :: cs =>
    if newlines then '\n' :: decodeEntities newlines cs
    else ['&', '#', '1', '0', ';'] ++ decodeEntities newlines cs
  | '&' :: '#' :: '9' :: ';' :: cs =>
    if newlines then '\t' :: decodeEntities newlines cs
    else ['&', '#', '9', ';'] ++ decodeEntities newlines cs
  | c :: cs => c :: decodeEntities newlines cs
  | [] => []

/-- An attribute value with its entities replaced. -/
def decodeValue (newlines : Bool) (value : String) : String :=
  String.ofList (decodeEntities newlines value.toList)

end ViewTree.Markup
