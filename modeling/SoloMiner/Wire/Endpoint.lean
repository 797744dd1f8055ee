import SoloMiner.Text.Cut
import SoloMiner.Text.Decimal
import SoloMiner.Wire.Fault

/-! # Endpoints

    The address of a node: a host and the number after the colon. A host with colons in it
    is written in brackets. A scheme, slashes at the end and white space around the address
    are allowed and mean nothing. -/

namespace SoloMiner

/-- Host and number of a node. -/
structure Endpoint where
  host : String
  portNumber : UInt16
  deriving DecidableEq, Repr

namespace Endpoint

/-- The number meant when none is given. -/
def standardPortNumber : UInt16 := 18000

/-- The address without white space, scheme and closing slashes. -/
def core (url : List Char) : List Char :=
  let rest := Text.trim url
  let rest := (Text.afterFirst "://".toList rest).getD rest
  Text.trimEndWhile (· == '/') rest

/-- Divides a bare address into the host and the text after the colon, if there is a colon.
    What follows a bracketed host counts only if it starts with a colon. -/
def divide? : List Char → Option (List Char × Option (List Char))
  | '[' :: bracketed =>
    match Text.cutFirst ']' bracketed with
    | none => none
    | some (host, ':' :: number) => some (host, some number)
    | some (host, _) => some (host, none)
  | rest =>
    match Text.cutLast ':' rest with
    | some (host, number) => some (host, some number)
    | none => some (rest, none)

/-- Reads an address. Without a number the standard one is taken, and a host with a slash in it
    is none. -/
def parse (url : String) : Except NetworkError Endpoint :=
  match divide? (core url.toList) with
  | none => .error (.invalidUrl url)
  | some (host, number) =>
    if host.isEmpty || host.contains '/' then .error (.invalidUrl url)
    else
      match number with
      | none => .ok ⟨String.ofList host, standardPortNumber⟩
      | some number =>
        match Decimal.uint16? number with
        | some n => .ok ⟨String.ofList host, n⟩
        | none => .error (.invalidUrl url)

/-- The address in its shortest form. -/
def text (e : Endpoint) : String :=
  let host := if e.host.toList.contains ':' then "[" ++ e.host ++ "]" else e.host
  host ++ ":" ++ Decimal.text e.portNumber.toNat

end Endpoint
end SoloMiner
