import PgSynapse.Sidecar.AdminToken
import Mathlib.Tactic.ByContra
import Mathlib.Tactic.Push

/-!
# What `constant_time_eq` compares

Two byte strings pass just if they are equal, or one is the other with zero bytes behind it, 256 of
them or a multiple (`constantTimeEq_eq_true_iff`).  The check of the admin token is exact but for such
tokens, the empty token, and a token that is not visible ASCII (`admin_token_iff`).
-/

namespace PgSynapse

namespace Sidecar

/-! ### The fold -/

theorem foldl_or_eq_zero_iff {ι : Type} (f : ι → UInt8) (xs : List ι) (d : UInt8) :
    xs.foldl (fun d i => d ||| f i) d = 0 ↔ d = 0 ∧ ∀ i ∈ xs, f i = 0 := by
  induction xs generalizing d with
  | nil => simp
  | cons x xs ih =>
    rw [List.foldl_cons, ih, UInt8.or_eq_zero_iff, List.forall_mem_cons, and_assoc]

/-- The byte of the lengths' difference sees the lengths modulo 256. -/
theorem ofNat_xor_eq_zero_iff (m n : Nat) : UInt8.ofNat (m ^^^ n) = 0 ↔ m % 256 = n % 256 := by
  rw [UInt8.ofNat_xor, UInt8.xor_eq_zero_iff, ← UInt8.toNat_inj, UInt8.toNat_ofNat',
    UInt8.toNat_ofNat']

theorem byteAt_of_le {a : List UInt8} {i : Nat} (h : a.length ≤ i) : byteAt a i = 0 := by
  rw [byteAt, List.getElem?_eq_none h]
  rfl

/-- What `constant_time_eq` sees: the lengths modulo 256, and the bytes with zeros behind them. -/
theorem constantTimeEq_iff (a b : List UInt8) :
    constantTimeEq a b = true ↔
      a.length % 256 = b.length % 256 ∧ ∀ i, byteAt a i = byteAt b i := by
  unfold constantTimeEq
  rw [beq_iff_eq, foldl_or_eq_zero_iff, ofNat_xor_eq_zero_iff]
  refine and_congr_right fun _ => ⟨fun h i => ?_, fun h i _ => UInt8.xor_eq_zero_iff.mpr (h i)⟩
  by_cases hi : i < max a.length b.length
  · exact UInt8.xor_eq_zero_iff.mp (h i (List.mem_range.mpr hi))
  · rw [byteAt_of_le (by omega), byteAt_of_le (by omega)]

/-! ### Padded texts -/

/-- The one text is the other with zero bytes behind it, 256 of them or a multiple. -/
def Padded (a b : List UInt8) : Prop := ∃ k, 0 < k ∧ b = a ++ List.replicate (256 * k) 0

theorem Padded.length {a b : List UInt8} (h : Padded a b) : a.length < b.length := by
  obtain ⟨k, hk, rfl⟩ := h
  rw [List.length_append, List.length_replicate]
  omega

theorem byteAt_append_replicate (a : List UInt8) (n i : Nat) :
    byteAt (a ++ List.replicate n 0) i = byteAt a i := by
  by_cases hi : i < a.length
  · rw [byteAt, byteAt, List.getElem?_append_left hi]
  · rw [byteAt_of_le (Nat.not_lt.mp hi), byteAt, List.getElem?_append_right (Nat.not_lt.mp hi),
      List.getElem?_replicate]
    split <;> rfl

/-- A text with zeros behind it passes for the text. -/
theorem Padded.constantTimeEq {a b : List UInt8} (h : Padded a b) : constantTimeEq a b = true := by
  obtain ⟨k, -, rfl⟩ := h
  refine (constantTimeEq_iff _ _).mpr ⟨?_, fun i => (byteAt_append_replicate a _ i).symm⟩
  rw [List.length_append, List.length_replicate, Nat.add_mul_mod_self_left]

/-- A text that passes for a shorter one is that text or padded. -/
theorem eq_or_padded {a b : List UInt8} (hlen : a.length ≤ b.length)
    (hmod : a.length % 256 = b.length % 256) (hbytes : ∀ i, byteAt a i = byteAt b i) :
    a = b ∨ Padded a b := by
  obtain ⟨k, hk⟩ : ∃ k, b.length = a.length + 256 * k :=
    ⟨(b.length - a.length) / 256, by omega⟩
  have hb : b = a ++ List.replicate (256 * k) 0 := by
    refine List.ext_getElem (by rw [hk, List.length_append, List.length_replicate]) fun i hi hi' => ?_
    have hget : ∀ {s : List UInt8} (h : i < s.length), byteAt s i = s[i] := by
      intro s h
      rw [byteAt, List.getElem?_eq_getElem h]
      rfl
    rw [← hget hi, ← hget hi', byteAt_append_replicate, hbytes i]
  rcases Nat.eq_zero_or_pos k with rfl | hpos
  · exact .inl (by rw [hb, Nat.mul_zero, List.replicate_zero, List.append_nil])
  · exact .inr ⟨k, hpos, hb⟩

/-- **The byte strings that pass**: equal ones, and padded ones. -/
theorem constantTimeEq_eq_true_iff (a b : List UInt8) :
    constantTimeEq a b = true ↔ a = b ∨ Padded a b ∨ Padded b a := by
  constructor
  · intro h
    obtain ⟨hmod, hbytes⟩ := (constantTimeEq_iff a b).mp h
    rcases Nat.le_total a.length b.length with hlen | hlen
    · exact (eq_or_padded hlen hmod hbytes).imp_right .inl
    · rcases eq_or_padded hlen hmod.symm fun i => (hbytes i).symm with heq | hpad
      · exact .inl heq.symm
      · exact .inr (.inr hpad)
  · rintro (rfl | hpad | hpad)
    · exact (constantTimeEq_iff a a).mpr ⟨rfl, fun _ => rfl⟩
    · exact hpad.constantTimeEq
    · obtain ⟨hmod, hbytes⟩ := (constantTimeEq_iff b a).mp hpad.constantTimeEq
      exact (constantTimeEq_iff a b).mpr ⟨hmod.symm, fun i => (hbytes i).symm⟩

/-! ### Requests -/

/-- A non-empty admin token is configured, and the header is there and has its bytes. -/
def Authorized (headers : HeaderMap) (adminToken : Option String) : Prop :=
  ∃ token, adminToken = some token ∧ bytesOf token ≠ [] ∧
    ∃ v, headers.lookup adminTokenHeader = some v ∧ v.bytes = bytesOf token

/-- **Where the check is exact**: the token is not empty unless something else is provided, a header
with its bytes is visible ASCII, and the token is not the provided one with zeros behind it. -/
structure TokenDecides (headers : HeaderMap) (token : String) : Prop where
  nonempty : bytesOf token = [] → providedToken headers ≠ []
  visible : ∀ v, headers.lookup adminTokenHeader = some v → v.bytes = bytesOf token →
    v.bytes.all isVisibleAscii = true
  unpadded : ¬ Padded (providedToken headers) (bytesOf token)

theorem providedToken_none {headers : HeaderMap} (h : headers.lookup adminTokenHeader = none) :
    providedToken headers = [] := by
  rw [providedToken, h]
  rfl

theorem providedToken_some {headers : HeaderMap} {v : HeaderValue}
    (h : headers.lookup adminTokenHeader = some v) :
    providedToken headers = if v.bytes.all isVisibleAscii then v.bytes else [] := by
  rw [providedToken, h, Option.bind_some, HeaderValue.toStr]
  split <;> rfl

/-- A header value has no zero bytes. -/
theorem HeaderValue.ne_zero (v : HeaderValue) : ∀ b ∈ v.bytes, b ≠ 0 := by
  intro b hb hzero
  have hvalid := v.valid b hb
  rw [hzero] at hvalid
  exact absurd hvalid (by decide)

/-- What is provided is not padded. -/
theorem not_padded_providedToken (headers : HeaderMap) (t : List UInt8) :
    ¬ Padded t (providedToken headers) := by
  rintro ⟨k, hk, heq⟩
  have hmem : (0 : UInt8) ∈ providedToken headers := by
    rw [heq]
    exact List.mem_append_right _ (List.mem_replicate.mpr ⟨by omega, rfl⟩)
  rcases hlookup : headers.lookup adminTokenHeader with _ | v
  · rw [providedToken_none hlookup] at hmem
    cases hmem
  · rw [providedToken_some hlookup] at hmem
    split at hmem
    · exact v.ne_zero 0 hmem rfl
    · cases hmem

/-- What the check accepts. -/
theorem checkAdminToken_ok_iff (headers : HeaderMap) (token : String) :
    checkAdminToken headers (some token) = .ok () ↔
      providedToken headers = bytesOf token ∨ Padded (providedToken headers) (bytesOf token) := by
  have hcheck : checkAdminToken headers (some token) = .ok () ↔
      constantTimeEq (providedToken headers) (bytesOf token) = true := by
    unfold checkAdminToken
    cases hpass : constantTimeEq (providedToken headers) (bytesOf token) <;> simp [hpass]
  rw [hcheck, constantTimeEq_eq_true_iff]
  exact or_congr_right (or_iff_left (not_padded_providedToken headers _))

/-- A request with the token is one that provides it, where the header is visible. -/
theorem authorized_iff {headers : HeaderMap} {token : String}
    (hvisible : ∀ v, headers.lookup adminTokenHeader = some v → v.bytes = bytesOf token →
      v.bytes.all isVisibleAscii = true) :
    Authorized headers (some token) ↔
      bytesOf token ≠ [] ∧ providedToken headers = bytesOf token := by
  constructor
  · rintro ⟨t, ht, hne, v, hlookup, hv⟩
    obtain rfl := Option.some.inj ht
    rw [providedToken_some hlookup, if_pos (hvisible v hlookup hv)]
    exact ⟨hne, hv⟩
  · rintro ⟨hne, hprovided⟩
    refine ⟨token, rfl, hne, ?_⟩
    rcases hlookup : headers.lookup adminTokenHeader with _ | v
    · rw [providedToken_none hlookup] at hprovided
      exact absurd hprovided.symm hne
    · rw [providedToken_some hlookup] at hprovided
      split at hprovided
      · exact ⟨v, rfl, hprovided⟩
      · exact absurd hprovided.symm hne

/-- **The check with a token**: it accepts the requests with the token, and no others, just if the
token decides. -/
theorem checkAdminToken_exact_iff (headers : HeaderMap) (token : String) :
    (checkAdminToken headers (some token) = .ok () ↔ Authorized headers (some token)) ↔
      TokenDecides headers token := by
  rw [checkAdminToken_ok_iff]
  constructor
  · intro h
    have hnonempty : bytesOf token = [] → providedToken headers ≠ [] := by
      intro hempty hprovided
      obtain ⟨t, ht, hne, -⟩ := h.mp (.inl (hprovided.trans hempty.symm))
      obtain rfl := Option.some.inj ht
      exact hne hempty
    have hvisible : ∀ v, headers.lookup adminTokenHeader = some v → v.bytes = bytesOf token →
        v.bytes.all isVisibleAscii = true := by
      intro v hlookup hv
      by_contra hall
      have hprovided : providedToken headers = [] := by
        rw [providedToken_some hlookup, if_neg hall]
      have hne : bytesOf token ≠ [] := fun hempty => hnonempty hempty hprovided
      rcases h.mpr ⟨token, rfl, hne, v, hlookup, hv⟩ with heq | ⟨k, hk, hpad⟩
      · exact hne (heq.symm.trans hprovided)
      · -- a header with the token's bytes has no zeros
        rw [hprovided, List.nil_append, ← hv] at hpad
        exact v.ne_zero 0 (hpad ▸ List.mem_replicate.mpr ⟨by omega, rfl⟩) rfl
    refine ⟨hnonempty, hvisible, fun hpad => ?_⟩
    obtain ⟨-, hprovided⟩ := (authorized_iff hvisible).mp (h.mp (.inr hpad))
    exact absurd hpad.length (by rw [hprovided]; exact Nat.lt_irrefl _)
  · rintro ⟨hnonempty, hvisible, hunpadded⟩
    rw [authorized_iff hvisible, or_iff_left hunpadded]
    exact ⟨fun h => ⟨fun hempty => hnonempty hempty (h.trans hempty), h⟩, And.right⟩

/-! ### All of it -/

/-- Where the check is exact, on the token of the state. -/
def CheckIsExact (headers : HeaderMap) (adminToken : Option String) : Prop :=
  ∀ token, adminToken = some token → TokenDecides headers token

/-- **The admin token check**: two byte strings are compared as equality does just if neither is the
other padded, and the requests with the token are the ones that are accepted just if the token
decides. -/
theorem admin_token_iff (a b : List UInt8) (headers : HeaderMap) (adminToken : Option String) :
    ((constantTimeEq a b = true ↔ a = b) ↔ ¬ (Padded a b ∨ Padded b a)) ∧
    ((checkAdminToken headers adminToken = .ok () ↔ Authorized headers adminToken) ↔
      CheckIsExact headers adminToken) := by
  constructor
  · rw [constantTimeEq_eq_true_iff]
    constructor
    · rintro h (hpad | hpad)
      · exact absurd hpad.length (by rw [h.mp (.inr (.inl hpad))]; exact Nat.lt_irrefl _)
      · exact absurd hpad.length (by rw [h.mp (.inr (.inr hpad))]; exact Nat.lt_irrefl _)
    · exact fun h => or_iff_left h
  · rcases adminToken with _ | token
    · refine iff_of_true (iff_of_false (fun h => by cases h) ?_) (fun token h => by cases h)
      rintro ⟨token, h, -⟩
      cases h
    · rw [checkAdminToken_exact_iff]
      constructor
      · intro h t ht
        obtain rfl := Option.some.inj ht
        exact h
      · exact fun h => h token rfl

/-- Nothing passes for 256 zero bytes, and a request without a header for one with the empty token. -/
theorem zeros_and_empty_token_pass :
    (constantTimeEq [] (List.replicate 256 0) = true ∧ [] ≠ List.replicate 256 (0 : UInt8)) ∧
    (checkAdminToken [] (some "") = .ok () ∧ ¬ Authorized [] (some "")) := by
  refine ⟨⟨by decide +kernel, by decide⟩, by decide +kernel, ?_⟩
  rintro ⟨token, htoken, -, v, hlookup, -⟩
  cases hlookup

end Sidecar

end PgSynapse
