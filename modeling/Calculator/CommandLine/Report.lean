import Calculator.CommandLine.Invocation
import Calculator.Evaluation

namespace Calculator.CommandLine

structure Report where
  status : Nat
  output : String
  -- For the standard error.
  complaint : String
deriving DecidableEq, Repr

namespace Report

def success (output : String) : Report where
  status := 0
  output := output
  complaint := ""

-- What has been printed before the failure stays printed.
def failure (output message : String) : Report where
  status := 1
  output := output
  complaint := "Error: " ++ message ++ "\n"

def after (output : String) (r : Report) : Report :=
  { r with output := output ++ r.output }

end Report

def row (line : String) (t : Token) : String :=
  t.span.text ++ "\t" ++ (t.span.slice? line).getD "" ++ "\t" ++ t.symbol.text ++ "\n"

def Command.report (line : String) : Command → Report
  | check =>
    match validate line with
    | .error f => .failure "" f.message
    | .ok _ => .success "Parsing successful!\n"
  | eval =>
    match evaluate line with
    | .error f => .failure "" f.message
    | .ok value => .success (value.text ++ "\n")
  | tokens =>
    let stream := (Cursor.ofText line).stream
    let rows := String.join (stream.tokens.map (row line))
    match stream.ending with
    | .error f => .failure rows f.message
    | .ok _ => .success rows

def firstLine (input : List UInt8) : List UInt8 :=
  input.takeWhile (· ≠ 10)

-- The first line of the input as text, without the carriage returns at its end. There is none if
-- the line is not UTF-8.
def readLine? (input : List UInt8) : Option String :=
  (String.fromUTF8? (firstLine input).toByteArray).map fun line =>
    .ofList (line.toList.reverse.dropWhile (· = '\r')).reverse

def Command.reportInput (input : List UInt8) (c : Command) : Report :=
  match readLine? input with
  | none => .failure "" "stream did not contain valid UTF-8"
  | some line => c.report line

def prompt : String :=
  "Enter an arithmetic expression: "

def versionText : String :=
  "intexpr 0.1.0\n"

def usage : String :=
  "Usage: intexpr <COMMAND> [EXPR]\n\n" ++
  "Commands:\n" ++
  "  check   Checks that an expression is valid\n" ++
  "  eval    Evaluates an expression and prints its value\n" ++
  "  tokens  Prints the token stream of an expression\n" ++
  "  help    Print this message\n"

def Invocation.report (input : List UInt8) : Invocation → Report
  | run command (some expression) => command.report expression
  | run command none => (command.reportInput input).after prompt
  | version => .success versionText
  | help => .success usage
  | misuse => ⟨2, "", usage⟩

end Calculator.CommandLine
