namespace Calculator.CommandLine

inductive Command where
  | check
  | eval
  | tokens
deriving DecidableEq, Repr

def Command.ofName? : String → Option Command
  | "check" => some .check
  | "eval" => some .eval
  | "tokens" => some .tokens
  | _ => none

inductive Invocation where
  -- Without an expression, one is read from the standard input.
  | run (command : Command) (expression : Option String)
  | version
  | help
  | misuse
deriving DecidableEq, Repr

namespace Invocation

def isHelpFlag (arg : String) : Bool :=
  match arg.toList with
  | '-' :: 'h' :: letters => letters.all (· = 'h')
  | _ => false

def ofPlain (command : Command) : List String → Invocation
  | [] => run command none
  | [expression] => run command (some expression)
  | _ => misuse

def ofRest (command : Command) (expression : String) : List String → Invocation
  | [] => run command (some expression)
  | arg :: args =>
    if arg = "--" ∧ args = [] then run command (some expression)
    else if arg = "--help" ∨ arg.toList.take 2 = ['-', 'h'] then help
    else misuse

-- The arguments after the command. An expression may begin with a dash, so that only a request for
-- help and `--` count as options.
def ofOperands (command : Command) : List String → Invocation
  | [] => run command none
  | arg :: args =>
    if arg = "--" then ofPlain command args
    else if arg = "--help" ∨ isHelpFlag arg then help
    else if "--help=".toList.isPrefixOf arg.toList then misuse
    else ofRest command arg args

def ofTopics : List String → Invocation
  | [] => help
  | [topic] => if topic = "help" ∨ (Command.ofName? topic).isSome then help else misuse
  | _ => misuse

def ofArgs : List String → Invocation
  | [] => misuse
  | arg :: args =>
    match Command.ofName? arg with
    | some command => ofOperands command args
    | none =>
      if arg = "help" then ofTopics args
      else if arg = "--version" ∨ arg.toList.take 2 = ['-', 'V'] then version
      else if arg = "--help" ∨ arg.toList.take 2 = ['-', 'h'] then help
      else misuse

end Invocation
end Calculator.CommandLine
