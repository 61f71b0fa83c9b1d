import RowTyping.Ty.Basic

namespace RowTyping.Ty

def positionalOpen : List Char := "Record\x7b".toList

def positionalClose : List Char := "\x7d".toList

def positionalName (labels : List Label) : String :=
  .ofList (positionalOpen ++ [','].intercalate (labels.map String.toList) ++ positionalClose)

def positionalRecord (fields : OrderedMap Label Ty) : Ty :=
  .app (.con (positionalName fields.keys)) fields.values

def labelsOfName? (name : String) : Option (List Label) := do
  let opened ← positionalOpen.isPrefixOf? name.toList
  let inner ← positionalClose.isSuffixOf? opened
  if inner.isEmpty then some [] else some ((inner.splitOn ',').map String.ofList)

def positionalLabels? : Ty → Option (List Label)
  | .app (.con name) _ => labelsOfName? name
  | _ => none

end RowTyping.Ty
