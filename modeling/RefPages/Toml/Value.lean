import RefPages.Decimal.Binary

/-!
# TOML values

The values of a TOML document. A table keeps its keys in the order in which they were written.
-/

namespace RefPages.Toml

inductive FloatValue where
  | finite (negative : Bool) (value : Decimal.Binary)
  | infinite (negative : Bool)
  | nan
deriving DecidableEq, Repr

inductive Value where
  | string (text : String)
  | integer (value : Int)
  | float (value : FloatValue)
  | boolean (value : Bool)
  /-- A date, a time or both. -/
  | moment
  | array (items : List Value)
  | table (entries : List (String × Value))
deriving Repr

end RefPages.Toml
