import Mathlib.Data.List.Sort

/-! # Kashier's webhook signature

`KashierClient.verifyWebhook` and `verifyKashierSignature`, over arbitrary JSON bodies: which
fields are signed is read from the body itself.  Strings are lists of UTF-16 code units, as they
are in JavaScript, and `none` stands for an exception.
-/

set_option autoImplicit false

namespace SwiftBite

namespace Kashier

abbrev Text := List UInt16

/-- A literal, of characters from the basic plane. -/
def text (literal : String) : Text := literal.toList.map fun c => c.val.toUInt16

/-- A number stands for its `String()`. -/
inductive Json where
  | null
  | bool (value : Bool)
  | number (shown : Text)
  | string (value : Text)
  | array (items : List Json)
  | object (fields : List (Text × Json))

def Json.isNull : Json → Bool
  | .null => true
  | _ => false

/-! ## The standard library -/

mutual

/-- `String(value)`.  An object with a `toString` of its own, which is no function, throws. -/
def Json.toText : Json → Option Text
  | .null => some (text "null")
  | .bool true => some (text "true")
  | .bool false => some (text "false")
  | .number shown => some shown
  | .string value => some value
  | .array items => itemsToText items
  | .object fields =>
    if fields.any (fun field => field.1 = text "toString") then none
    else some (text "[object Object]")

/-- `Array.prototype.join`: `null` is written as nothing. -/
def itemsToText : List Json → Option Text
  | [] => some []
  | [item] => if item.isNull then some [] else item.toText
  | item :: items => do
    let first ← if item.isNull then some [] else item.toText
    let rest ← itemsToText items
    some (first ++ text "," ++ rest)

end

/-- The order of `Array.prototype.sort`: by code units. -/
def textLe : Text → Text → Bool
  | [], _ => true
  | _ :: _, [] => false
  | a :: as, b :: bs => if a < b then true else if b < a then false else textLe as bs

def isHighSurrogate (unit : UInt16) : Bool := 0xD800 ≤ unit && unit ≤ 0xDBFF

def isLowSurrogate (unit : UInt16) : Bool := 0xDC00 ≤ unit && unit ≤ 0xDFFF

/-- Letters, digits and `- _ . ! ~ * ' ( )`. -/
def unescaped (unit : UInt16) : Bool :=
  (65 ≤ unit && unit ≤ 90) || (97 ≤ unit && unit ≤ 122) || (48 ≤ unit && unit ≤ 57) ||
    unit ∈ ([45, 95, 46, 33, 126, 42, 39, 40, 41] : List UInt16)

def utf8 (point : ℕ) : List ℕ :=
  if point < 0x80 then [point]
  else if point < 0x800 then [0xC0 + point / 0x40, 0x80 + point % 0x40]
  else if point < 0x10000 then [0xE0 + point / 0x1000, 0x80 + point / 0x40 % 0x40,
    0x80 + point % 0x40]
  else [0xF0 + point / 0x40000, 0x80 + point / 0x1000 % 0x40, 0x80 + point / 0x40 % 0x40,
    0x80 + point % 0x40]

def hexDigit (n : ℕ) : UInt16 := UInt16.ofNat (if n < 10 then 48 + n else 55 + n)

def percentEncoded (point : ℕ) : Text :=
  (utf8 point).flatMap fun byte => [37, hexDigit (byte / 16), hexDigit (byte % 16)]

/-- A surrogate on its own throws. -/
def encodeURIComponent : Text → Option Text
  | [] => some []
  | [unit] =>
    if unescaped unit then some [unit]
    else if isHighSurrogate unit || isLowSurrogate unit then none
    else some (percentEncoded unit.toNat)
  | unit :: next :: rest =>
    if unescaped unit then (encodeURIComponent (next :: rest)).map (unit :: ·)
    else if isLowSurrogate unit then none
    else if isHighSurrogate unit then
      if isLowSurrogate next then
        (encodeURIComponent rest).map
          (percentEncoded (0x10000 + (unit.toNat - 0xD800) * 0x400 + (next.toNat - 0xDC00)) ++ ·)
      else none
    else (encodeURIComponent (next :: rest)).map (percentEncoded unit.toNat ++ ·)

def hexValue (unit : UInt16) : Option ℕ :=
  if 48 ≤ unit && unit ≤ 57 then some (unit.toNat - 48)
  else if 97 ≤ unit && unit ≤ 102 then some (unit.toNat - 87)
  else if 65 ≤ unit && unit ≤ 70 then some (unit.toNat - 55)
  else none

/-- `Buffer.from(value, "hex")`: up to the first pair that is no byte. -/
def fromHex : Text → List ℕ
  | high :: low :: rest =>
    match hexValue high, hexValue low with
    | some a, some b => (16 * a + b) :: fromHex rest
    | _, _ => []
  | _ => []

/-- The names that every object inherits, and the `String()` of what stands under them. -/
def objectPrototype : List (Text × Text) :=
  (text "constructor", text "function Object() { [native code] }") ::
    (text "__proto__", text "[object Object]") ::
    ["__defineGetter__", "__defineSetter__", "hasOwnProperty", "__lookupGetter__",
      "__lookupSetter__", "isPrototypeOf",
      "propertyIsEnumerable", "toString", "valueOf", "toLocaleString"].map
      fun name => (text name, text "function " ++ text name ++ text "() { [native code] }")

/-! ## The signature -/

/-- A property of a value, if it has it. -/
def Json.property (value : Json) (name : Text) : Option Json :=
  match value with
  | .object fields => fields.lookup name
  | _ => none

/-- `String(value[name])`. -/
def propertyText (value : Json) (name : Text) : Option Text :=
  match value.property name with
  | some found => found.toText
  | none => some ((objectPrototype.lookup name).getD (text "undefined"))

/-- `key=value`, the value URL-encoded. -/
def signedPart (payload : Json) (key : Text) : Option Text := do
  let value ← propertyText payload key
  let encoded ← encodeURIComponent value
  some (key ++ text "=" ++ encoded)

def queryString (payload : Json) (signatureKeys : List Json) : Option Text := do
  let keys ← signatureKeys.mapM Json.toText
  let parts ← (keys.insertionSort fun a b => textLe a b).mapM (signedPart payload)
  some ((text "&").intercalate parts)

section

-- `createHmac("sha256", secret).update(message).digest("hex")`
variable (hmac : Text → Text → Text)

def verifyKashierSignature (payload : Json) (signatureKeys : List Json)
    (receivedSignature secret : Text) : Option Bool :=
  if receivedSignature.isEmpty || signatureKeys.isEmpty then some false
  else do
    let query ← queryString payload signatureKeys
    let computedBuf := fromHex (hmac secret query)
    let receivedBuf := fromHex receivedSignature
    if computedBuf.length ≠ receivedBuf.length then some false else some (computedBuf = receivedBuf)

/-- `value ?? fallback`. -/
def orElse (value : Option Json) (fallback : Json) : Json :=
  match value with
  | some found => if found.isNull then fallback else found
  | none => fallback

def dataOf (payload : Json) : Json := orElse (payload.property (text "data")) (.object [])

def signatureKeysOf (data : Json) : List Json :=
  match data.property (text "signatureKeys") with
  | some (.array items) => items
  | _ => []

def verifyWebhook (apiKey : Text) (payload : Json) (signature : Text) : Option Bool :=
  verifyKashierSignature hmac (dataOf payload) (signatureKeysOf (dataOf payload)) signature apiKey

end

/-- What `process` reads from a body that it has verified. -/
structure ActedOn where
  event : Text
  status : Text
  merchantOrderId : Text
  providerTransactionId : Text
  deriving DecidableEq

def actedOn (payload : Json) : Option ActedOn := do
  let event ← (orElse (payload.property (text "event")) (.string [])).toText
  let status ← (orElse ((dataOf payload).property (text "status")) (.string [])).toText
  let merchantOrderId ← (orElse ((dataOf payload).property (text "merchantOrderId"))
      (.string [])).toText
  let providerTransactionId ← (orElse ((dataOf payload).property (text "transactionId"))
    (orElse ((dataOf payload).property (text "kashierOrderId")) (.string []))).toText
  some ⟨event, status, merchantOrderId, providerTransactionId⟩

end Kashier

end SwiftBite
