/-
# `ClusteredMessage`

`src/vertx/ClusteredMessage.h`: the record that requests, responses and frames
are built from.  A `std::string` is a list of bytes, an `int` an `Int32`; the
address of the reply is spelled `replay` there and here.

`std::any` matters through one question only, whether it holds a `std::string`
(`to_cstring`, `bodyAsString`, `replyAsString`), so every other content is kept
as the name of its type and its object bytes.

A `std::function` cannot be looked into either.  `MsgCallback` says whether it
is empty and which function it holds; what that function does to the message it
is given is a `Handlers` environment, consulted at each call.
-/
import Mathlib

namespace VertxCpp

/-- A `std::string`. -/
abbrev Bytes := List UInt8

/-- The bytes of a string literal of the source. -/
def bytes (s : String) : Bytes := s.toList.map fun c => c.val.toUInt8

/-- `std::any`. -/
inductive Any where
  | empty
  | string (s : Bytes)
  | other (type : String) (value : Bytes)
  deriving DecidableEq, Repr

/-- `std::any_cast<std::string>`, with the handler of `bad_any_cast` in
`bodyAsString` and `replyAsString`: the empty string. -/
def Any.asString : Any → Bytes
  | string s => s
  | _ => []

/-- Which function a `std::function` holds: one that user code registered or
installed, or the response handler given to the request call of that number. -/
inductive FuncId where
  | handler (n : ℕ)
  | response (r : ℕ)
  deriving DecidableEq, Repr

/-- `MsgCallback`; calling an empty one throws `bad_function_call`. -/
inductive MsgCallback where
  | empty
  | target (f : FuncId)
  deriving DecidableEq, Repr

/-- `ClusteredMessage`.  The defaults are what the ten-argument constructor leaves
of the last fields; `request` it leaves uninitialised, and every path that reads
it has called `setRequest`. -/
@[ext] structure ClusteredMessage where
  messageSize : Int32
  protocolVersion : Int32
  systemCodecId : Int32
  send : Bool
  address : Bytes
  replay : Bytes
  port : Int32
  host : Bytes
  headers : Int32
  body : Any
  reply : Any := .empty
  request : Bool := false
  func : MsgCallback := .empty
  callbackFunc : MsgCallback := .empty
  isLocal : Bool := false
  deriving DecidableEq, Repr

namespace ClusteredMessage

def setPort (m : ClusteredMessage) (port : Int32) : ClusteredMessage := { m with port }

def setHost (m : ClusteredMessage) (host : Bytes) : ClusteredMessage := { m with host }

/-- `body(const std::any &)`. -/
def setBody (m : ClusteredMessage) (body : Any) : ClusteredMessage := { m with body }

/-- `reply(const std::any &)`. -/
def setReply (m : ClusteredMessage) (reply : Any) : ClusteredMessage := { m with reply }

def setRequest (m : ClusteredMessage) (request : Bool) : ClusteredMessage := { m with request }

def setFunc (m : ClusteredMessage) (func callbackFunc : MsgCallback) : ClusteredMessage :=
  { m with func, callbackFunc, isLocal := true }

def bodyAsString (m : ClusteredMessage) : Bytes := m.body.asString

def replyAsString (m : ClusteredMessage) : Bytes := m.reply.asString

end ClusteredMessage

/-- What ends a function early: `unordered_map::at` on an absent key, a call of an
empty `std::function`, an exception out of user code.  After the other two C++
gives the program no meaning: a write behind the buffer of `to_string`, and the
front of an empty `std::queue`. -/
inductive Fault where
  | outOfRange
  | badFunctionCall
  | thrown (n : ℕ)
  | bufferOverrun (index : ℕ)
  | emptyQueue
  deriving DecidableEq, Repr

/-- What the functions held by the `std::function` objects do: the message as the
call leaves it, or the exception that comes out. -/
abbrev Handlers := FuncId → ClusteredMessage → Except Fault ClusteredMessage

/-- `ServerID`, the endpoint of a node. -/
structure ServerID where
  port : Int32
  host : Bytes
  deriving DecidableEq, Repr

/-- The decimal digits of a number, as `fmt::format_int` writes them. -/
def decimal (n : ℕ) : Bytes := (Nat.toDigits 10 n).map fun c => c.val.toUInt8

/-- `fmt::format_int(i).str()`. -/
def formatInt (i : Int32) : Bytes :=
  if i.toInt < 0 then bytes "-" ++ decimal i.toInt.natAbs else decimal i.toInt.natAbs

/-- `host + ":" + fmt::format_int(port).str()`, the address of a TCP peer. -/
def tcpAddress (host : Bytes) (port : Int32) : Bytes := host ++ bytes ":" ++ formatInt port

end VertxCpp
