/-! Sizes of the worker pools and how long a shutdown waits for them. -/

namespace HomeAutomation.Scheduler

structure Settings where
  maxThreads : Nat
  systemThreads : Nat
  shutdownTimeoutSecs : Nat
  deriving DecidableEq

namespace Settings

def threadsPerProcessor : Nat := 128

def default (processors : Nat) : Settings := ⟨processors * threadsPerProcessor, 8, 5⟩

inductive Error where
  | noThreads
  | noSystemThreads
  deriving DecidableEq

def Error.reason : Error → String
  | .noThreads => "max_threads must be at least 1"
  | .noSystemThreads => "system_threads must be at least 1"

def Error.message (e : Error) : String := "invalid scheduler configuration: " ++ e.reason

def validate (s : Settings) : Except Error Unit :=
  if s.maxThreads = 0 then .error .noThreads
  else if s.systemThreads = 0 then .error .noSystemThreads
  else .ok ()

end Settings

end HomeAutomation.Scheduler
