import SiteConf.Number.Binary64

set_option autoImplicit false

/-! # JSON values

Numbers without fraction and exponent that fit in 64 bits are integers, all others are floating
point. Objects keep their members in the order of the text, also repeated ones. -/

namespace SiteConf

inductive Json where
  | null
  | bool (value : Bool)
  | int (value : Int)
  | float (value : Number.Binary64)
  | str (text : String)
  | array (items : List Json)
  | object (members : List (String × Json))
  deriving Repr, Inhabited

end SiteConf
