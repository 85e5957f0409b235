import DiceTray.Token.Json
import DiceTray.Table

namespace DiceTray.Repl

variable {σ : Type}

structure Reply where
  shown : List String := []
  problems : List String := []
  deriving DecidableEq, Repr

def prompt : String := "> "

def split (line : String) : Option String × String :=
  let cs := line.toList
  match cs.dropWhile (· != '\t') with
  | _ :: rest => (some (String.ofList (cs.takeWhile (· != '\t'))), String.ofList rest)
  | [] => (none, line)

def expression (given : Option String) (tokens : List Token) : String :=
  given.getD (" ".intercalate (tokens.map Token.text))

def report (options : DisplayOptions) (text : String) (t : Tray) : Reply where
  shown := (t.display? options text).toList ++ [t.tooltip text]
  problems := t.notices.map fun f => "Warning: " ++ f.message

def refusal (f : Fault) : Reply where
  problems := ["Error: " ++ f.message]

def answer (r : Roller σ) (options : DisplayOptions) (line : String) (s : σ) : Reply × σ :=
  if Text.isAllBlank line then ({}, s)
  else
    let (given, json) := split line
    match Token.readAll json with
    | .error f => (refusal f, s)
    | .ok tokens =>
        match Table.roll r { expression := expression given tokens, tokens } s with
        | (.error f, _, s) => (refusal f, s)
        | (.ok _, b, s) => (report options b.expression b.tray, s)

def closeLine (rev : List Char) : String :=
  match rev with
  | '\r' :: rest => String.ofList rest.reverse
  | _ => String.ofList rev.reverse

def linesFrom (rev : List Char) : List Char → List String
  | [] => if rev.isEmpty then [] else [String.ofList rev.reverse]
  | c :: cs => if c = '\n' then closeLine rev :: linesFrom [] cs else linesFrom (c :: rev) cs

def lines (input : String) : List String := linesFrom [] input.toList

def answers (r : Roller σ) (options : DisplayOptions) : List String → σ → List Reply
  | [], _ => []
  | line :: rest, s =>
      let (reply, s) := answer r options line s
      reply :: answers r options rest s

def transcript (replies : List Reply) : String :=
  prompt ++ String.join (replies.map fun a =>
    String.join (a.shown.map fun text => text ++ "\n") ++ prompt)

def options (locale : Option String) : DisplayOptions where
  numberFormat := (locale.map NumberFormat.ofLocale).getD .english
  inline := true

end DiceTray.Repl
