/-!
# Colours

Whether the output is coloured is a matter of policy. Left to itself, the program follows
the environment first and then colours what goes to a terminal.
-/

namespace StylePrune

/-- The variables of an environment. -/
abbrev Environment := List (String × String)

namespace Color

/-- When to colour. -/
inductive Policy where
  | auto
  | always
  | never
deriving DecidableEq, Repr

namespace Policy

/-- All policies, in the order they are listed to the user. -/
def all : List Policy := [.auto, .always, .never]

/-- The name of a policy. -/
def name : Policy → String
  | .auto => "auto"
  | .always => "always"
  | .never => "never"

/-- The policy with a name. -/
def ofName? (name : String) : Option Policy :=
  all.find? (·.name == name)

/-- Whether the environment forbids colours. -/
def isForbidden (env : Environment) : Bool :=
  (env.lookup "NO_COLOR").isSome || env.lookup "CLICOLOR" == some "0" ||
    env.lookup "TERM" == some "dumb"

/-- Whether the environment asks for colours. -/
def isForced (env : Environment) : Bool :=
  env.lookup "CLICOLOR_FORCE" == some "1" || env.lookup "FORCE_COLOR" == some "1"

/-- Whether the output is coloured. -/
def enabled (policy : Policy) (isTerminal : Bool) (env : Environment) : Bool :=
  match policy with
  | .always => true
  | .never => false
  | .auto => !isForbidden env && (isForced env || isTerminal)

end Policy

/-- A colour of the terminal's palette. -/
inductive Tint where
  | yellow
  | blue
  | cyan
deriving DecidableEq, Repr

/-- The number of a foreground colour. -/
def Tint.code : Tint → String
  | .yellow => "33"
  | .blue => "34"
  | .cyan => "36"

/-- A text in a colour. -/
def tinted (tint : Tint) (text : String) : String :=
  "\x1b[" ++ tint.code ++ "m" ++ text ++ "\x1b[39m"

/-- A text in bold. -/
def bold (text : String) : String :=
  "\x1b[1m" ++ text ++ "\x1b[0m"

end Color

end StylePrune
