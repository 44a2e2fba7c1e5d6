namespace UiBinding

inductive Resource
  | none
  | file (path : String)
  | embedded (data : List UInt8)
  deriving DecidableEq

namespace Resource

def kind : Resource → String
  | none => "none"
  | file _ => "absolute_file_path"
  | embedded _ => "embedded_data"

end Resource

end UiBinding
