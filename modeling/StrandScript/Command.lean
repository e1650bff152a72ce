/-!
# Commands

What an action strand does to the cell or list it acts on. Its number is the sum of its vertical
runs, and some commands have a variant for whole lists.
-/

namespace StrandScript

/-- The commands. A name that stands for none of them is kept as it is. -/
inductive Command where
  | add | subtract | overwrite | multiply | divide | modulo | power | root
  | insert | append | pop | popAppend
  | other (name : String)
deriving Repr, DecidableEq, Inhabited

namespace Command

/-- The name of a command. -/
def name : Command → String
  | add => "addition_assignment"
  | subtract => "subtraction_assignment"
  | overwrite => "overwrite"
  | multiply => "multiplication_assignment"
  | divide => "division_assignment"
  | modulo => "mod_assignment"
  | power => "exponent_assignment"
  | root => "root_assignment"
  | insert => "insert"
  | append => "append"
  | pop => "pop"
  | popAppend => "pop_and_append"
  | other n => n

/-- The command of a given name. -/
def ofName (n : String) : Command :=
  match n with
  | "addition_assignment" => add
  | "subtraction_assignment" => subtract
  | "overwrite" => overwrite
  | "multiplication_assignment" => multiply
  | "division_assignment" => divide
  | "mod_assignment" => modulo
  | "exponent_assignment" => power
  | "root_assignment" => root
  | "insert" => insert
  | "append" => append
  | "pop" => pop
  | "pop_and_append" => popAppend
  | n => other n

/-- What is noted beside a command. -/
def note : Command → String
  | add => "add to location, set to zero by default"
  | overwrite => "assignment, overwriting existing value"
  | insert => "inserts value after indicated cell (applied immediately)"
  | append => "appends value to list"
  | subtract => "add/subtract, similar to the default addition_assignment"
  | multiply => "multiply by supplied argument"
  | divide => "add/subtract, similar to the default addition_assignment"
  | pop => "addition_assignment. for ref, also remove cell from ref_list"
  | popAppend => "pop from ref_list and append to act_list"
  | modulo => "modulus against supplied argument"
  | power => "raise to power of supplied argument"
  | root => "take root at power of supplied argument"
  | other _ => ""

/-- The command of an action strand's number. -/
def ofNumber? (n : Int) : Option Command :=
  if n = 0 then some overwrite
  else if n = 1 then some insert
  else if n = -1 then some subtract
  else if n = 2 then some multiply
  else if n = -2 then some divide
  else if n = 3 then some pop
  else if n = -3 then some modulo
  else if n = 4 then some power
  else if n = -4 then some root
  else none

/-- The variant of a command for whole lists. -/
def forList : Command → Command
  | insert => append
  | pop => popAppend
  | c => c

/-- Whether the command puts its value at the end of the list. -/
def appends : Command → Bool
  | append | popAppend => true
  | _ => false

end Command

end StrandScript
