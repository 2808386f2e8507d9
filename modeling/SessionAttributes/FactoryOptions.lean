import SessionAttributes.Error

namespace SessionAttributes

structure FactoryOptions where
  workers : Nat := 4
  threadName : String := "session-cascade"
deriving DecidableEq, Repr

namespace FactoryOptions

instance : Inhabited FactoryOptions := ⟨{}⟩

def validate (options : FactoryOptions) : Except SessionError Unit :=
  if options.workers = 0 then .error (.config "cascade_workers must be at least 1")
  else if options.threadName.isEmpty then
    .error (.config "cascade_thread_name must not be empty")
  else .ok ()

end FactoryOptions
end SessionAttributes
