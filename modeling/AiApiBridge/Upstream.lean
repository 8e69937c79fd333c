import AiApiBridge.Failover

/-!
# The upstream client

Requests to an upstream and what becomes of their answers (`upstream.rs`), and the
answer of the bridge to a client whose request has failed (`error.rs`). `reqwest` is
what brings the answer: no response at all, or one with a status and a body, which
may break off while it is read.
-/

set_option autoImplicit false

namespace AiApiBridge

/-- A POST to an upstream. The key goes into an `Authorization: Bearer` header. -/
structure UpstreamRequest where
  url : String
  bearer : Option String
  headers : List (String × String)
  body : Value
  deriving DecidableEq, Repr

/-- A response: its status, and its body read in one piece and chunk by chunk. -/
structure UpstreamResponse where
  status : Nat
  text : Except String String
  chunks : List (Except String (List UInt8))

/-! ## Texts of errors -/

/-- Whether a byte position of a text is the start of a character or its end. -/
def isCharBoundary : List Char → Nat → Bool
  | _, 0 => true
  | [], _ + 1 => false
  | c :: cs, n + 1 => c.utf8Size ≤ n + 1 && isCharBoundary cs (n + 1 - c.utf8Size)

/-- The last boundary at or before a position. -/
def boundaryBelow (cs : List Char) : Nat → Nat
  | 0 => 0
  | n + 1 => if isCharBoundary cs (n + 1) then n + 1 else boundaryBelow cs n

/-- The characters before a byte position. -/
def sliceTo : List Char → Nat → List Char
  | _, 0 => []
  | [], _ + 1 => []
  | c :: cs, n + 1 => c :: sliceTo cs (n + 1 - c.utf8Size)

/-- The length of a text in bytes. -/
def utf8Length (cs : List Char) : Nat := (cs.map Char.utf8Size).sum

/-- Cut a text to `n` bytes, not inside a character. -/
def truncate (s : String) (n : Nat) : String :=
  if utf8Length s.toList ≤ n then s
  else String.ofList (sliceTo s.toList (boundaryBelow s.toList n)) ++ "…"

/-- A boundary splits a text, and the characters before it are as long as it says. -/
theorem utf8Length_sliceTo {cs : List Char} {n : Nat} (h : isCharBoundary cs n = true) :
    sliceTo cs n <+: cs ∧ utf8Length (sliceTo cs n) = n := by
  induction cs generalizing n with
  | nil =>
      cases n with
      | zero => exact ⟨List.nil_prefix, rfl⟩
      | succ n => cases h
  | cons c cs ih =>
      cases n with
      | zero => exact ⟨List.nil_prefix, rfl⟩
      | succ n =>
          simp only [isCharBoundary, Bool.and_eq_true, decide_eq_true_eq] at h
          obtain ⟨hstart, hlength⟩ := ih h.2
          refine ⟨List.cons_prefix_cons.2 ⟨rfl, hstart⟩, ?_⟩
          rw [utf8Length] at hlength ⊢
          rw [sliceTo, List.map_cons, List.sum_cons, hlength]
          omega

/-- The characters of a text in front of the rest end at a boundary. -/
theorem isCharBoundary_append (cs rest : List Char) :
    isCharBoundary (cs ++ rest) (utf8Length cs) = true ∧
      sliceTo (cs ++ rest) (utf8Length cs) = cs := by
  induction cs with
  | nil => cases rest <;> exact ⟨rfl, rfl⟩
  | cons c cs ih =>
      have hlength : utf8Length (c :: cs) = (c.utf8Size - 1 + utf8Length cs) + 1 := by
        have := c.utf8Size_pos
        simp only [utf8Length, List.map_cons, List.sum_cons]
        omega
      have hrest : c.utf8Size - 1 + utf8Length cs + 1 - c.utf8Size = utf8Length cs := by
        have := c.utf8Size_pos
        omega
      have hle : c.utf8Size ≤ c.utf8Size - 1 + utf8Length cs + 1 := by omega
      rw [hlength, List.cons_append, isCharBoundary, sliceTo, hrest, ih.1, ih.2]
      exact ⟨by simpa using hle, rfl⟩

/-- The last boundary at or before a position is one, and none lies between. -/
theorem boundaryBelow_spec (cs : List Char) (n : Nat) :
    isCharBoundary cs (boundaryBelow cs n) = true ∧ boundaryBelow cs n ≤ n ∧
      ∀ i ≤ n, isCharBoundary cs i = true → i ≤ boundaryBelow cs n := by
  induction n with
  | zero => exact ⟨by cases cs <;> rfl, Nat.le_refl 0, fun i hi _ => hi⟩
  | succ n ih =>
      rw [boundaryBelow]
      split
      · rename_i h
        exact ⟨h, Nat.le_refl _, fun i hi _ => hi⟩
      · rename_i h
        refine ⟨ih.1, Nat.le_succ_of_le ih.2.1, fun i hi hboundary => ih.2.2 i ?_ hboundary⟩
        -- the position itself is no boundary
        rcases Nat.lt_or_eq_of_le hi with hlt | rfl
        · exact Nat.le_of_lt_succ hlt
        · exact absurd hboundary h

/-- **A text that is cut** keeps the longest beginning of no more than `n` bytes. -/
theorem truncate_eq (s : String) (n : Nat) :
    truncate s n = s ∧ utf8Length s.toList ≤ n ∨
      ∃ kept, truncate s n = String.ofList kept ++ "…" ∧ kept <+: s.toList ∧ utf8Length kept ≤ n ∧
        ∀ longer, longer <+: s.toList → utf8Length longer ≤ n → longer <+: kept := by
  rw [truncate]
  split
  · rename_i h
    exact Or.inl ⟨rfl, h⟩
  · obtain ⟨hboundary, hle, hlast⟩ := boundaryBelow_spec s.toList n
    obtain ⟨hstart, hlength⟩ := utf8Length_sliceTo hboundary
    refine Or.inr ⟨_, rfl, hstart, hlength.trans_le hle, ?_⟩
    intro longer hlonger hfits
    obtain ⟨rest, hrest⟩ := hlonger
    have hends : isCharBoundary s.toList (utf8Length longer) = true := by
      rw [← hrest]
      exact (isCharBoundary_append longer rest).1
    have hshort := hlast _ hfits hends
    -- of two beginnings of one text the shorter begins the longer
    rcases List.prefix_or_prefix_of_prefix ⟨rest, hrest⟩ hstart with h | h
    · exact h
    · obtain ⟨more, hmore⟩ := h
      have hsum : utf8Length longer =
          utf8Length (sliceTo s.toList (boundaryBelow s.toList n)) + utf8Length more := by
        rw [← hmore, utf8Length, List.map_append, List.sum_append]
        rfl
      have hzero : more = [] := by
        cases more with
        | nil => rfl
        | cons c more =>
            have hpos := c.utf8Size_pos
            have : utf8Length (c :: more) = c.utf8Size + utf8Length more := by
              simp [utf8Length]
            omega
      rw [hzero, List.append_nil] at hmore
      exact hmore ▸ List.prefix_rfl

/-! ## Requests -/

namespace Upstream

/-- `str::trim_end_matches('/')`. -/
def trimSlashes (s : String) : String :=
  String.ofList (s.toList.reverse.dropWhile (· = '/')).reverse

/-- The request for a provider's endpoint. -/
def request (provider : Provider) (path : String) (body : Value) : UpstreamRequest where
  url := trimSlashes provider.baseUrl ++ path
  bearer := provider.apiKey
  headers := provider.extraHeaders
  body := body

/-- `StatusCode::is_success`. -/
def isSuccess (status : Nat) : Bool := 200 ≤ status ∧ status ≤ 299

/-- The error of a response that is no success. -/
def failure (r : UpstreamResponse) : BridgeError :=
  .upstream r.status (truncate (r.text.toOption.getD "") 500)

/-- `post_stream` on what came of the request; `none` when the response headers did not come
in time. -/
def postStream (sent : Option (Except String UpstreamResponse)) :
    Except BridgeError (List (Except String (List UInt8))) :=
  match sent with
  | none => .error (.upstreamUnreachable "timeout waiting for response headers")
  | some (.error e) => .error (.upstreamUnreachable e)
  | some (.ok r) => if isSuccess r.status then .ok r.chunks else .error (failure r)

/-- `post_json` on what came of the request. `fromStr` is `serde_json::from_str` at
`Value`. -/
def postJson (fromStr : String → Except String Value) (sent : Except String UpstreamResponse) :
    Except BridgeError Value :=
  match sent with
  | .error e => .error (.upstreamUnreachable e)
  | .ok r =>
      if isSuccess r.status then
        match r.text with
        | .error e => .error (.upstreamUnreachable e)
        | .ok text => (fromStr text).mapError fun e => .internal ("bad upstream JSON: " ++ e)
      else .error (failure r)

end Upstream

/-! ## Answers to clients -/

namespace BridgeError

/-- The status a failed request is answered with. -/
def httpStatus : BridgeError → Nat
  | badRequest _ => 400
  | unknownModel _ => 400
  | notFound _ => 404
  | conflict _ => 409
  | unauthorized _ => 401
  -- `StatusCode::from_u16` takes three digits
  | upstream status _ => if 100 ≤ status ∧ status < 1000 then status else 502
  | upstreamUnreachable _ => 502
  | notImplemented _ => 501
  | internal _ => 500

/-- The body a failed request is answered with. -/
def body (e : BridgeError) : Value :=
  .object [("error", .object [("message", .string e.display), ("type", .string "bridge_error")])]

end BridgeError

end AiApiBridge
