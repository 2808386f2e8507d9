import SessionAttributes.Json.Basic

namespace SessionAttributes

inductive Direction where
  | passivate
  | activate
deriving DecidableEq, Repr

inductive Measure where
  | sessionLoaded (attributes : Nat)
  | sessionCorrupt
  | sessionDeleted (silent : Bool)
  | attributeWritten
  | attributeWriteSkipped
  | cascadeEviction
  | activationNotified (direction : Direction)
deriving DecidableEq, Repr

structure Metrics where
  sessionsLoaded : Nat := 0
  attributesLoaded : Nat := 0
  sessionsCorrupt : Nat := 0
  sessionsRemoved : Nat := 0
  sessionsPurged : Nat := 0
  attributesWritten : Nat := 0
  attributeWritesSkipped : Nat := 0
  cascadeEvictions : Nat := 0
  passivationNotifications : Nat := 0
  activationNotifications : Nat := 0
deriving DecidableEq, Repr

instance : Inhabited Metrics := ⟨{}⟩

namespace Metrics

def record (m : Metrics) : Measure → Metrics
  | .sessionLoaded n =>
    { m with sessionsLoaded := m.sessionsLoaded + 1, attributesLoaded := m.attributesLoaded + n }
  | .sessionCorrupt => { m with sessionsCorrupt := m.sessionsCorrupt + 1 }
  | .sessionDeleted false => { m with sessionsRemoved := m.sessionsRemoved + 1 }
  | .sessionDeleted true => { m with sessionsPurged := m.sessionsPurged + 1 }
  | .attributeWritten => { m with attributesWritten := m.attributesWritten + 1 }
  | .attributeWriteSkipped => { m with attributeWritesSkipped := m.attributeWritesSkipped + 1 }
  | .cascadeEviction => { m with cascadeEvictions := m.cascadeEvictions + 1 }
  | .activationNotified .passivate =>
    { m with passivationNotifications := m.passivationNotifications + 1 }
  | .activationNotified .activate =>
    { m with activationNotifications := m.activationNotifications + 1 }

/-- Each counter by name. Counters are shown modulo `2 ^ 64`. -/
def toJson (m : Metrics) : Json :=
  .object [
    ("sessions_loaded", Json.ofNat m.sessionsLoaded),
    ("attributes_loaded", Json.ofNat m.attributesLoaded),
    ("sessions_corrupt", Json.ofNat m.sessionsCorrupt),
    ("sessions_removed", Json.ofNat m.sessionsRemoved),
    ("sessions_purged", Json.ofNat m.sessionsPurged),
    ("attributes_written", Json.ofNat m.attributesWritten),
    ("attribute_writes_skipped", Json.ofNat m.attributeWritesSkipped),
    ("cascade_evictions", Json.ofNat m.cascadeEvictions),
    ("passivation_notifications", Json.ofNat m.passivationNotifications),
    ("activation_notifications", Json.ofNat m.activationNotifications)]

end Metrics
end SessionAttributes
