import LiveHls.Config
/-! The level of the log. A change is written to the environment, and the level is then read anew
from the configuration. -/
namespace LiveHls

structure LogControl where
  around : Surroundings
  level : String
  /-- The reader of documents. -/
  read : String → Option Yaml

namespace LogControl

def reload (around : Surroundings) (read : String → Option Yaml := Yaml.parse?) : LogControl :=
  ⟨around, (Config.loadBy read around).config.logLevel, read⟩

def setVariable (name value : String) (environment : List (String × String)) :
    List (String × String) :=
  (name, value) :: environment.filter (·.1 ≠ name)

def change (c : LogControl) (level : LogLevel) : LogControl :=
  reload { c.around with
    environment := setVariable "LOG_LEVEL" level.name c.around.environment } c.read

end LogControl

end LiveHls
