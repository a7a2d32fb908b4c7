import MarkdownIndex.Decimal.Integer

/-!
# Listeners: the addresses that services listen on

A service listens on a host and a port, written `host:port`. The last colon parts them, so that a
host may have colons of its own.

* `Listener.parse` — the listener that a text stands for.
* `ListenError` — what is wrong with a text that stands for none.
-/

namespace MarkdownIndex

/-- What a service listens on. -/
structure Listener where
  /-- a name or a number of this machine -/
  host : String
  /-- the port; with zero the machine chooses one -/
  port : Nat
deriving DecidableEq, Repr

/-- Why a text stands for no listener. -/
inductive ListenError where
  /-- it has no colon -/
  | noPort
  /-- what follows the last colon is no port -/
  | badPort
deriving DecidableEq, Repr, Inhabited

/-- The wording of an error. -/
def ListenError.message : ListenError → String
  | .noPort => "invalid socket address"
  | .badPort => "invalid port value"

/-- What stands before the last colon and what stands after it. -/
def splitLastColon (cs : List Char) : Option (List Char × List Char) :=
  match cs.reverse.dropWhile (· ≠ ':') with
  | [] => none
  | _ :: host => some (host.reverse, (cs.reverse.takeWhile (· ≠ ':')).reverse)

/-- The listener that a text stands for. -/
def Listener.parse (s : String) : Except ListenError Listener :=
  match splitLastColon s.toList with
  | none => .error .noPort
  | some (host, port) => match Decimal.word16? port with
    | none => .error .badPort
    | some n => .ok ⟨String.ofList host, n⟩

end MarkdownIndex
