/-! Records for the log. -/
namespace Stepwise

inductive Level where
  | debug | info | warning | error
  deriving DecidableEq, Repr

namespace Level

def all : List Level := [.debug, .info, .warning, .error]

def label : Level → String
  | .debug => "DEBUG"
  | .info => "INFO"
  | .warning => "WARNING"
  | .error => "ERROR"

def rank : Level → Nat
  | .debug => 10
  | .info => 20
  | .warning => 30
  | .error => 40

def ofLabel? (label : String) : Option Level := all.find? (·.label = label)

end Level

inductive Origin where
  | commandLine | execution | trace | registry
  deriving DecidableEq, Repr

def Origin.label : Origin → String
  | .commandLine => "tradeflow.cli"
  | .execution => "tradeflow.runtime.executor"
  | .trace => "tradeflow.runtime.telemetry"
  | .registry => "tradeflow.runtime.dispatcher"

structure JournalEntry where
  level : Level
  origin : Origin
  message : String
  deriving DecidableEq, Repr

end Stepwise
