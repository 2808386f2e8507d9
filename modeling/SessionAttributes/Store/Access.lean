namespace SessionAttributes

inductive AccessMode where
  /-- Returns the earlier value and tells the listeners. -/
  | normal
  /-- Only tells the listeners. -/
  | writeOnly
  /-- Does neither. -/
  | silent
deriving DecidableEq, Repr

namespace AccessMode

instance : Inhabited AccessMode := ⟨.normal⟩

def returnsPrevious : AccessMode → Bool
  | .normal => true
  | _ => false

def notifies : AccessMode → Bool
  | .silent => false
  | _ => true

def reveal {V : Type} (mode : AccessMode) (previous : Option V) : Option V :=
  if mode.returnsPrevious then previous else none

end AccessMode
end SessionAttributes
