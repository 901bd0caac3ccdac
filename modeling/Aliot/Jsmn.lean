import Aliot.CString
import Aliot.Json

set_option autoImplicit false

namespace Aliot

inductive JsmnType where
  | primitive
  | object
  | array
  | string
deriving DecidableEq, Repr

-- A stop of none is the end of -1 that a token has until it is closed.
structure JsmnTok where
  type : JsmnType
  start : Nat
  stop : Option Nat
  size : Nat
deriving DecidableEq, Repr

def JSMN_ERROR_NOMEM : Int := -1
def JSMN_ERROR_INVAL : Int := -2
def JSMN_ERROR_PART : Int := -3

-- The tokens written so far are the first toknext ones; a toksuper of none is -1.
structure JsmnParser where
  pos : Nat
  tokens : List JsmnTok
  toksuper : Option Nat

structure JsmnResult where
  rc : Int
  tokens : List JsmnTok

def isOpen (tok : JsmnTok) : Bool := tok.stop.isNone

def isContainer (tok : JsmnTok) : Bool := tok.type == .object || tok.type == .array

def lastIndex (test : JsmnTok → Bool) : List JsmnTok → Option Nat
  | [] => none
  | tok :: rest =>
      match lastIndex test rest with
      | some i => some (i + 1)
      | none => if test tok then some 0 else none

def grow (tokens : List JsmnTok) : Option Nat → List JsmnTok
  | none => tokens
  | some i => tokens.modify i (fun tok => { tok with size := tok.size + 1 })

def jsmnAdd (num_tokens : Nat) (p : JsmnParser) (tok : JsmnTok) : Except Int (List JsmnTok) :=
  if p.tokens.length ≥ num_tokens then .error JSMN_ERROR_NOMEM
  else .ok (grow p.tokens p.toksuper ++ [tok])

def endsPrimitive (c : UInt8) : Bool :=
  c == 0x3a || c == 0x09 || c == 0x0d || c == 0x0a || c == 0x20 || c == 0x2c || c == 0x5d || c == 0x7d

def primitiveEnd : Bytes → Nat → Except Int Nat
  | [], pos => .ok pos
  | c :: rest, pos =>
      if endsPrimitive c then .ok pos
      else if c < 32 || c ≥ 127 then .error JSMN_ERROR_INVAL
      else primitiveEnd rest (pos + 1)

def isEscaped (c : UInt8) : Bool :=
  c == 0x22 || c == 0x2f || c == 0x5c || c == 0x62 || c == 0x66 || c == 0x72 || c == 0x6e || c == 0x74

def isHexDigit (c : UInt8) : Bool := (48 ≤ c && c ≤ 57) || (65 ≤ c && c ≤ 70) || (97 ≤ c && c ≤ 102)

-- Where the closing quote is, with `hex` digits of a \u escape still to be read.
def stringEnd : Nat → Bytes → Nat → Except Int Nat
  | _, [], _ => .error JSMN_ERROR_PART
  | hex + 1, c :: rest, pos =>
      if isHexDigit c then stringEnd hex rest (pos + 1) else .error JSMN_ERROR_INVAL
  | 0, c :: rest, pos =>
      if c = 0x22 then .ok pos
      else if c = 0x5c then
        match rest with
        | [] => .error JSMN_ERROR_PART
        | e :: rest =>
            if isEscaped e then stringEnd 0 rest (pos + 2)
            else if e = 0x75 then stringEnd 4 rest (pos + 2)
            else .error JSMN_ERROR_INVAL
      else stringEnd 0 rest (pos + 1)

def jsmnOpen (num_tokens : Nat) (p : JsmnParser) (type : JsmnType) : Except Int JsmnParser := do
  let tokens ← jsmnAdd num_tokens p ⟨type, p.pos, none, 0⟩
  return ⟨p.pos + 1, tokens, some p.tokens.length⟩

def jsmnClose (p : JsmnParser) (type : JsmnType) : Except Int JsmnParser :=
  match lastIndex isOpen p.tokens with
  | none => .error JSMN_ERROR_INVAL
  | some i =>
      if (p.tokens[i]?).any (fun tok => tok.type != type) then .error JSMN_ERROR_INVAL
      else
        .ok ⟨p.pos + 1, p.tokens.modify i (fun tok => { tok with stop := some (p.pos + 1) }),
          lastIndex isOpen (p.tokens.take i)⟩

def jsmnParseString (js : Bytes) (num_tokens : Nat) (p : JsmnParser) : Except Int JsmnParser := do
  let stop ← stringEnd 0 (js.drop (p.pos + 1)) (p.pos + 1)
  let tokens ← jsmnAdd num_tokens p ⟨.string, p.pos + 1, some stop, 0⟩
  return ⟨stop + 1, tokens, p.toksuper⟩

def jsmnParsePrimitive (js : Bytes) (num_tokens : Nat) (p : JsmnParser) : Except Int JsmnParser := do
  let stop ← primitiveEnd (js.drop p.pos) p.pos
  let tokens ← jsmnAdd num_tokens p ⟨.primitive, p.pos, some stop, 0⟩
  return ⟨stop, tokens, p.toksuper⟩

-- Whatever tokens[-1] holds: outside every container no open one is found and nothing changes.
def jsmnComma (p : JsmnParser) : JsmnParser :=
  let super := p.toksuper.bind (fun i => p.tokens[i]?)
  if super.any isContainer then { p with pos := p.pos + 1 }
  else
    match lastIndex (fun tok => isContainer tok && isOpen tok) p.tokens with
    | some i => { p with pos := p.pos + 1, toksuper := some i }
    | none => { p with pos := p.pos + 1 }

def jsmnStep (js : Bytes) (num_tokens : Nat) (p : JsmnParser) (c : UInt8) : Except Int JsmnParser :=
  if c = 0x7b then jsmnOpen num_tokens p .object
  else if c = 0x5b then jsmnOpen num_tokens p .array
  else if c = 0x7d then jsmnClose p .object
  else if c = 0x5d then jsmnClose p .array
  else if c = 0x22 then jsmnParseString js num_tokens p
  else if c = 0x09 ∨ c = 0x0d ∨ c = 0x0a ∨ c = 0x20 then .ok { p with pos := p.pos + 1 }
  else if c = 0x3a then
    .ok { p with pos := p.pos + 1, toksuper := if p.tokens.length = 0 then none else some (p.tokens.length - 1) }
  else if c = 0x2c then .ok (jsmnComma p)
  else jsmnParsePrimitive js num_tokens p

-- The count returned on success is that of the tokens: both grow together.
def jsmnEnd (p : JsmnParser) : JsmnResult :=
  if (lastIndex isOpen p.tokens).isSome then ⟨JSMN_ERROR_PART, p.tokens⟩
  else ⟨p.tokens.length, p.tokens⟩

def jsmnLoop (js : Bytes) (num_tokens : Nat) : Nat → JsmnParser → JsmnResult
  | 0, p => jsmnEnd p
  | fuel + 1, p =>
      match js[p.pos]? with
      | none => jsmnEnd p
      | some c =>
          match jsmnStep js num_tokens p c with
          | .error rc => ⟨rc, p.tokens⟩
          | .ok p => jsmnLoop js num_tokens fuel p

def jsmnParse (js : Bytes) (num_tokens : Nat) : JsmnResult :=
  jsmnLoop js num_tokens js.length ⟨0, [], none⟩

def tokenText (js : Bytes) (tok : JsmnTok) : Bytes :=
  (js.drop tok.start).take (tok.stop.getD tok.start - tok.start)

end Aliot
