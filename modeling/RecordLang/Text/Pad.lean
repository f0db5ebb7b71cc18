/-! # Columns of fixed width

Text is padded to at least a given number of characters; longer text is kept whole.
-/

namespace RecordLang.Text

def padRight (width : Nat) (s : String) : String :=
  String.ofList (s.toList.rightpad width ' ')

def padZeros (width : Nat) (s : String) : String :=
  String.ofList (s.toList.leftpad width '0')

end RecordLang.Text
