import SiteConf.Ordered

set_option autoImplicit false

/-! # Conditions

The names that are switched on for one run. They are kept in the order in which they were given,
each once. -/

namespace SiteConf

/-- The names of the conditions that hold. -/
abbrev Conditions := List String

end SiteConf
