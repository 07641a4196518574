import Unimported.Text.Utf8

/-!
# What is read from bytes

The reader of UTF-8 is at rest wherever a character of ASCII is read, whatever was open before, so a
byte string can be cut there and its parts be read on their own.  Such a character comes from its own
byte and from no other: what is put together from several bytes lies above ASCII, because the bounds
of the second byte leave out every overlong form.  And what was encoded is read back.

## Main definitions

* `Utf8.Bounds.Within` — a byte lies within bounds.
* `Utf8.State.least` — the least code point that can still be read.

## Main results

* `Utf8.decode_append_ascii` — **a byte string is cut at a character of ASCII.**
* `Utf8.mem_of_mem_decode` — a character of ASCII is read from its own byte.
* `Utf8.decode_encode` — **what was encoded is read back.**
-/

namespace Unimported.Text.Utf8

/-! ### Bounds -/

/-- The least byte within the bounds. -/
def Bounds.low : Bounds → Nat
  | .any | .to9F | .to8F => 0x80
  | .fromA0 => 0xA0
  | .from90 => 0x90

/-- The greatest byte within the bounds. -/
def Bounds.high : Bounds → Nat
  | .any | .fromA0 | .from90 => 0xBF
  | .to9F => 0x9F
  | .to8F => 0x8F

/-- A byte lies within the bounds. -/
def Bounds.Within (next : Bounds) (b : Nat) : Prop := next.low ≤ b ∧ b ≤ next.high

theorem Bounds.within_iff {next : Bounds} {b : Nat} : next.Within b ↔ next.admit b = true := by
  cases next <;> exact (Bool.and_eq_true_iff.trans (and_congr decide_eq_true_iff
    decide_eq_true_iff)).symm

theorem Bounds.le_low (next : Bounds) : 0x80 ≤ next.low := by cases next <;> decide

theorem Bounds.within_any {b : Nat} (h : b < 64) : Bounds.any.Within (b + 128) := by
  constructor <;> simp only [low, high] <;> omega

/-! ### Cutting at ASCII -/

theorem start_ascii {b : Nat} (h : b < 0x80) : start b = ([some (Char.ofNat b)], .rest) := if_pos h

/-- No continuation byte is one of ASCII. -/
theorem not_within_ascii {b : Nat} (h : b < 0x80) (next : Bounds) : ¬ next.Within b :=
  fun hwithin => Nat.not_lt.mpr (Nat.le_trans next.le_low hwithin.1) h

/-- A byte of ASCII ends what was open, is read as itself and leaves the reader at rest. -/
theorem step_ascii {b : UInt8} (h : b.toNat < 0x80) (state : State) :
    step state b = (finish state ++ [some (Char.ofNat b.toNat)], .rest) := by
  cases state with
  | rest => exact start_ascii h
  | inside bits missing next =>
    rw [step, if_neg fun hadmits => not_within_ascii h next (Bounds.within_iff.mpr hadmits),
      start_ascii h]
    rfl

theorem unitsFrom_append_ascii {b : UInt8} (h : b.toNat < 0x80) (state : State)
    (front back : List UInt8) :
    unitsFrom state (front ++ b :: back) =
      unitsFrom state front ++ some (Char.ofNat b.toNat) :: units back := by
  induction front generalizing state with
  | nil => simp [unitsFrom, step_ascii h, units]
  | cons a front ih => simp [unitsFrom, ih]

/-- **A byte string is cut at a character of ASCII**: what stands in front of it and what stands
behind it are read on their own. -/
theorem decode_append_ascii {b : UInt8} (h : b.toNat < 0x80) (front back : List UInt8) :
    decode (front ++ b :: back) = decode front ++ Char.ofNat b.toNat :: decode back := by
  simp [decode, units, unitsFrom_append_ascii h]

/-! ### One byte -/

/-- The least code point that can still be read of an open character. -/
def State.least : State → Nat
  | .rest => 0x80
  | .inside bits missing next => (bits * 64 + (next.low - 0x80)) * Nat.pow 64 missing

/-- What a reader makes of a byte at rest: a character of ASCII, an invalid part, or an open character
above ASCII. -/
def Starts (b : Nat) (read : List (Option Char) × State) : Prop :=
  b < 0x80 ∧ read = ([some (Char.ofNat b)], .rest) ∨
    read = ([none], .rest) ∨
    ∃ bits missing next, read = ([], .inside bits missing next) ∧
      0x80 ≤ (State.inside bits missing next).least

theorem starts_invalid (b : Nat) : Starts b ([none], .rest) := Or.inr (Or.inl rfl)

theorem starts_inside (b : Nat) {bits missing : Nat} {next : Bounds}
    (h : 0x80 ≤ (State.inside bits missing next).least) :
    Starts b ([], .inside bits missing next) := Or.inr (Or.inr ⟨bits, missing, next, rfl, h⟩)

theorem starts_inside_any (b : Nat) {bits missing : Nat} (h : 2 ≤ bits * Nat.pow 64 missing) :
    Starts b ([], .inside bits missing .any) := by
  refine starts_inside b ?_
  calc 0x80 ≤ 64 * (bits * Nat.pow 64 missing) := by omega
    _ = (State.inside bits missing .any).least := by
      simp only [State.least, Bounds.low, Nat.sub_self, Nat.add_zero, Nat.mul_assoc,
        Nat.mul_left_comm]

/-- What a byte does at rest. -/
theorem start_cases (b : Nat) : Starts b (start b) := by
  unfold start
  refine iteInduction (fun h => Or.inl ⟨h, rfl⟩) fun _ => ?_
  refine iteInduction (fun _ => starts_invalid b) fun _ => ?_
  refine iteInduction (fun _ => starts_inside_any b (show 2 ≤ (b - 0xC0) * 1 by omega)) fun _ => ?_
  refine iteInduction (fun _ => starts_inside b (by decide)) fun _ => ?_
  refine iteInduction (fun _ => starts_inside b (by decide)) fun _ => ?_
  refine iteInduction (fun _ => starts_inside_any b (show 2 ≤ (b - 0xE0) * 64 by omega)) fun _ => ?_
  refine iteInduction (fun _ => starts_inside b (by decide)) fun _ => ?_
  refine iteInduction (fun _ => starts_inside_any b (show 2 ≤ (b - 0xF0) * 4096 by omega))
    fun _ => ?_
  exact iteInduction (fun _ => starts_inside b (by decide)) fun _ => starts_invalid b

/-- What a byte does inside a character: it completes it, goes on with it, or breaks it off. -/
theorem step_inside_cases (bits missing : Nat) (next : Bounds) (b : UInt8) :
    (next.Within b.toNat ∧
      (missing = 0 ∧ step (.inside bits missing next) b =
          ([some (Char.ofNat (bits * 64 + (b.toNat - 0x80)))], .rest) ∨
        ∃ m, missing = m + 1 ∧ step (.inside bits missing next) b =
          ([], .inside (bits * 64 + (b.toNat - 0x80)) m .any))) ∨
      step (.inside bits missing next) b = (none :: (start b.toNat).1, (start b.toNat).2) := by
  by_cases h : next.admit b.toNat = true
  · refine Or.inl ⟨Bounds.within_iff.mpr h, ?_⟩
    cases missing with
    | zero => exact Or.inl ⟨rfl, if_pos h⟩
    | succ m => exact Or.inr ⟨m, rfl, if_pos h⟩
  · exact Or.inr (if_neg h)

theorem unitsFrom_cons (state : State) (b : UInt8) (bytes : List UInt8) :
    unitsFrom state (b :: bytes) = (step state b).1 ++ unitsFrom (step state b).2 bytes := rfl

/-- An open character is read as something, be it an invalid part. -/
theorem unitsFrom_inside_ne_nil (bits missing : Nat) (next : Bounds) (bytes : List UInt8) :
    unitsFrom (.inside bits missing next) bytes ≠ [] := by
  induction bytes generalizing bits missing next with
  | nil => exact List.cons_ne_nil _ _
  | cons b bytes ih =>
    rw [unitsFrom_cons]
    rcases step_inside_cases bits missing next b with ⟨-, ⟨-, h⟩ | ⟨m, -, h⟩⟩ | h
    · simp [h]
    · simpa [h] using ih _ m .any
    · simp [h]

theorem decode_ne_nil {bytes : List UInt8} (h : bytes ≠ []) : decode bytes ≠ [] := by
  obtain ⟨b, bytes, rfl⟩ := List.exists_cons_of_ne_nil h
  suffices hunits : unitsFrom .rest (b :: bytes) ≠ [] by simpa [decode, units] using hunits
  rw [unitsFrom_cons]
  change (start b.toNat).1 ++ unitsFrom (start b.toNat).2 bytes ≠ []
  rcases start_cases b.toNat with ⟨-, h⟩ | h | ⟨bits, missing, next, h, -⟩
  · simp [h]
  · simp [h]
  · simpa [h] using unitsFrom_inside_ne_nil bits missing next bytes

/-! ### Characters of ASCII -/

/-- The bytes of a character never lower the least code point. -/
theorem le_least_step {state : State} (h : 0x80 ≤ state.least) (b : UInt8) :
    0x80 ≤ (step state b).2.least := by
  have hstart : 0x80 ≤ (start b.toNat).2.least := by
    rcases start_cases b.toNat with ⟨-, h⟩ | h | ⟨bits, missing, next, h, hleast⟩
    · simp [h, State.least]
    · simp [h, State.least]
    · rwa [h]
  cases state with
  | rest => exact hstart
  | inside bits missing next =>
    rcases step_inside_cases bits missing next b with
      ⟨hwithin, ⟨-, hstep⟩ | ⟨m, rfl, hstep⟩⟩ | hstep
    · simp [hstep, State.least]
    · have hbits : bits * 64 + (next.low - 0x80) ≤ bits * 64 + (b.toNat - 0x80) :=
        Nat.add_le_add_left (Nat.sub_le_sub_right hwithin.1 _) _
      have hpow : Nat.pow 64 (m + 1) = 64 * Nat.pow 64 m := Nat.pow_succ'
      rw [hstep]
      calc 0x80 ≤ (bits * 64 + (next.low - 0x80)) * Nat.pow 64 (m + 1) := h
        _ ≤ (bits * 64 + (b.toNat - 0x80)) * Nat.pow 64 (m + 1) := Nat.mul_le_mul_right _ hbits
        _ = (State.inside (bits * 64 + (b.toNat - 0x80)) m .any).least := by
          simp only [State.least, Bounds.low, hpow, Nat.mul_assoc, Nat.sub_self, Nat.add_zero]
    · rwa [hstep]

theorem toNat_ofNat_of_isValidChar {n : Nat} (h : n.isValidChar) : (Char.ofNat n).toNat = n := by
  rw [Char.ofNat, dif_pos h]
  rfl

/-- A code point above ASCII is no character of ASCII, except where it is none at all and the zero
character takes its place. -/
theorem le_toNat_ofNat {n : Nat} (h : 0x80 ≤ n) (hzero : Char.ofNat n ≠ '\x00') :
    0x80 ≤ (Char.ofNat n).toNat := by
  by_cases hvalid : n.isValidChar
  · rwa [toNat_ofNat_of_isValidChar hvalid]
  · exact absurd (by rw [Char.ofNat, dif_neg hvalid]; rfl) hzero

/-- A byte at which a character of ASCII is read is the byte of this character. -/
theorem toNat_eq_of_mem_step {state : State} (h : 0x80 ≤ state.least) {b : UInt8} {c : Char}
    (hc : c.toNat < 0x80) (hzero : c ≠ '\x00') (hmem : some c ∈ (step state b).1) :
    b.toNat = c.toNat := by
  have hstart : some c ∈ (start b.toNat).1 → b.toNat = c.toNat := by
    intro hmem
    rcases start_cases b.toNat with ⟨hb, h⟩ | h | ⟨bits, missing, next, h, -⟩
    · rw [h, List.mem_singleton, Option.some.injEq] at hmem
      rw [hmem, toNat_ofNat_of_isValidChar (Or.inl (by omega))]
    · simp [h] at hmem
    · simp [h] at hmem
  cases state with
  | rest => exact hstart hmem
  | inside bits missing next =>
    rcases step_inside_cases bits missing next b with
      ⟨hwithin, ⟨rfl, hstep⟩ | ⟨m, -, hstep⟩⟩ | hstep
    · -- the character that is completed lies above ASCII
      have hb := hwithin.1
      rw [hstep, List.mem_singleton, Option.some.injEq] at hmem
      have hleast : 0x80 ≤ bits * 64 + (next.low - 0x80) := by simpa [State.least] using h
      have hhigh : 0x80 ≤ c.toNat :=
        hmem ▸ le_toNat_ofNat (by omega) fun h => hzero (hmem.trans h)
      exact absurd hc (Nat.not_lt.mpr hhigh)
    · simp [hstep] at hmem
    · rw [hstep] at hmem
      exact hstart (by simpa using hmem)

theorem mem_of_mem_unitsFrom {state : State} (h : 0x80 ≤ state.least) {bytes : List UInt8}
    {c : Char} (hc : c.toNat < 0x80) (hzero : c ≠ '\x00') (hmem : some c ∈ unitsFrom state bytes) :
    ∃ b ∈ bytes, b.toNat = c.toNat := by
  induction bytes generalizing state with
  | nil =>
    cases state <;> simp [unitsFrom, finish] at hmem
  | cons b bytes ih =>
    rw [unitsFrom_cons, List.mem_append] at hmem
    rcases hmem with hmem | hmem
    · exact ⟨b, List.mem_cons_self, toNat_eq_of_mem_step h hc hzero hmem⟩
    · obtain ⟨a, ha, heq⟩ := ih (le_least_step h b) hmem
      exact ⟨a, List.mem_cons_of_mem b ha, heq⟩

/-- **A character of ASCII is read from its own byte.** -/
theorem mem_of_mem_decode {bytes : List UInt8} {c : Char} (hc : c.toNat < 0x80) (hzero : c ≠ '\x00')
    (hmem : c ∈ decode bytes) : ∃ b ∈ bytes, b.toNat = c.toNat := by
  obtain ⟨unit, hunit, rfl⟩ := List.mem_map.mp hmem
  cases unit with
  | none => exact absurd hc (show ¬ replacement.toNat < 0x80 by decide)
  | some c => exact mem_of_mem_unitsFrom (Nat.le_refl _) hc hzero hunit

/-! ### Reading what was encoded -/

/-- A character of two bytes is opened. -/
theorem start_two {v : Nat} (h₁ : 0x80 ≤ v) (h₂ : v < 0x800) :
    start (v / 64 % 32 + 192) = ([], .inside (v / 64) 0 .any) := by
  have hbits : v / 64 % 32 + 192 - 0xC0 = v / 64 := by omega
  rw [start, if_neg (by omega), if_neg (by omega), if_pos (by omega), hbits]

/-- A character of three bytes is opened, and the second one lies within the bounds. -/
theorem start_three {v : Nat} (h₁ : 0x800 ≤ v) (h₂ : v < 0x10000) (hs : v < 0xD800 ∨ 0xDFFF < v) :
    ∃ next : Bounds, start (v / 4096 % 16 + 224) = ([], .inside (v / 4096) 1 next) ∧
      next.Within (v / 64 % 64 + 128) := by
  obtain ⟨q, hq⟩ : ∃ q, v / 4096 = q := ⟨_, rfl⟩
  have hlead : q % 16 + 224 = q + 224 := by omega
  rw [hq, hlead]
  by_cases hlow : q = 0
  · exact ⟨.fromA0, by rw [hlow]; rfl, by simp only [Bounds.Within, Bounds.low, Bounds.high]; omega⟩
  · by_cases hsurrogate : q = 13
    · exact ⟨.to9F, by rw [hsurrogate]; rfl,
        by simp only [Bounds.Within, Bounds.low, Bounds.high]; omega⟩
    · refine ⟨.any, ?_, by simp only [Bounds.Within, Bounds.low, Bounds.high]; omega⟩
      rw [start, if_neg (by omega), if_neg (by omega), if_neg (by omega), if_neg (by omega),
        if_neg (by omega), if_pos (by omega), Nat.add_sub_cancel]

/-- A character of four bytes is opened, and the second one lies within the bounds. -/
theorem start_four {v : Nat} (h₁ : 0x10000 ≤ v) (h₂ : v < 0x110000) :
    ∃ next : Bounds, start (v / 262144 % 8 + 240) = ([], .inside (v / 262144) 2 next) ∧
      next.Within (v / 4096 % 64 + 128) := by
  obtain ⟨q, hq⟩ : ∃ q, v / 262144 = q := ⟨_, rfl⟩
  have hlead : q % 8 + 240 = q + 240 := by omega
  rw [hq, hlead]
  by_cases hlow : q = 0
  · exact ⟨.from90, by rw [hlow]; rfl, by simp only [Bounds.Within, Bounds.low, Bounds.high]; omega⟩
  · by_cases hhigh : q = 4
    · exact ⟨.to8F, by rw [hhigh]; rfl,
        by simp only [Bounds.Within, Bounds.low, Bounds.high]; omega⟩
    · refine ⟨.any, ?_, by simp only [Bounds.Within, Bounds.low, Bounds.high]; omega⟩
      rw [start, if_neg (by omega), if_neg (by omega), if_neg (by omega), if_neg (by omega),
        if_neg (by omega), if_neg (by omega), if_neg (by omega), if_pos (by omega),
        Nat.add_sub_cancel]

/-- The next byte of a character goes on with it. -/
theorem unitsFrom_inside_succ {bits m : Nat} {next : Bounds} {b : Nat} (hb : b < 256)
    (h : next.Within b) (bytes : List UInt8) :
    unitsFrom (.inside bits (m + 1) next) (UInt8.ofNat b :: bytes) =
      unitsFrom (.inside (bits * 64 + (b - 0x80)) m .any) bytes := by
  have hnat : (UInt8.ofNat b).toNat = b := by simpa using hb
  rw [unitsFrom_cons, step, hnat, if_pos (Bounds.within_iff.mp h)]
  rfl

/-- The last byte of a character completes it. -/
theorem unitsFrom_inside_zero {bits : Nat} {next : Bounds} {b : Nat} (hb : b < 256)
    (h : next.Within b) (bytes : List UInt8) :
    unitsFrom (.inside bits 0 next) (UInt8.ofNat b :: bytes) =
      some (Char.ofNat (bits * 64 + (b - 0x80))) :: unitsFrom .rest bytes := by
  have hnat : (UInt8.ofNat b).toNat = b := by simpa using hb
  rw [unitsFrom_cons, step, hnat, if_pos (Bounds.within_iff.mp h)]
  rfl

theorem unitsFrom_rest {b : Nat} (hb : b < 256) (bytes : List UInt8) :
    unitsFrom .rest (UInt8.ofNat b :: bytes) = (start b).1 ++ unitsFrom (start b).2 bytes := by
  have hnat : (UInt8.ofNat b).toNat = b := by simpa using hb
  rw [unitsFrom_cons, step, hnat]

/-- **The bytes of a character are read as the character.** -/
theorem unitsFrom_encodeChar (c : Char) (bytes : List UInt8) :
    unitsFrom .rest (String.utf8EncodeChar c ++ bytes) = some c :: unitsFrom .rest bytes := by
  obtain ⟨v, hv⟩ : ∃ v, c.val.toNat = v := ⟨_, rfl⟩
  have hvalid : v < 0xD800 ∨ 0xDFFF < v ∧ v < 0x110000 := hv ▸ c.valid
  have hchar : Char.ofNat v = c := hv ▸ Char.ofNat_toNat c
  unfold String.utf8EncodeChar
  simp only [hv]
  split
  · rw [List.singleton_append, unitsFrom_rest (by omega), start_ascii (by omega), hchar]
    rfl
  · split
    · rw [List.cons_append, List.singleton_append, unitsFrom_rest (by omega),
        start_two (by omega) (by omega)]
      change unitsFrom (.inside (v / 64) 0 .any) _ = _
      rw [unitsFrom_inside_zero (by omega) (Bounds.within_any (by omega)), Nat.add_sub_cancel]
      have hbits : v / 64 * 64 + v % 64 = v := by omega
      rw [hbits, hchar]
    · split
      · obtain ⟨next, hstart, hnext⟩ := start_three (v := v) (by omega) (by omega) (by omega)
        rw [List.cons_append, List.cons_append, List.singleton_append, unitsFrom_rest (by omega),
          hstart]
        change unitsFrom (.inside (v / 4096) 1 next) _ = _
        rw [unitsFrom_inside_succ (by omega) hnext,
          unitsFrom_inside_zero (by omega) (Bounds.within_any (by omega)), Nat.add_sub_cancel,
          Nat.add_sub_cancel]
        have hbits : (v / 4096 * 64 + v / 64 % 64) * 64 + v % 64 = v := by omega
        rw [hbits, hchar]
      · obtain ⟨next, hstart, hnext⟩ := start_four (v := v) (by omega) (by omega)
        rw [List.cons_append, List.cons_append, List.cons_append, List.singleton_append,
          unitsFrom_rest (by omega), hstart]
        change unitsFrom (.inside (v / 262144) 2 next) _ = _
        rw [unitsFrom_inside_succ (by omega) hnext,
          unitsFrom_inside_succ (by omega) (Bounds.within_any (by omega)),
          unitsFrom_inside_zero (by omega) (Bounds.within_any (by omega)), Nat.add_sub_cancel,
          Nat.add_sub_cancel, Nat.add_sub_cancel]
        have hbits :
            ((v / 262144 * 64 + v / 4096 % 64) * 64 + v / 64 % 64) * 64 + v % 64 = v := by
          omega
        rw [hbits, hchar]

/-- **What was encoded is read back.** -/
theorem decode_encode (cs : List Char) : decode (encode cs) = cs := by
  suffices h : units (encode cs) = cs.map some by
    rw [decode, h, List.map_map]
    exact List.map_id cs
  unfold units encode
  induction cs with
  | nil => rfl
  | cons c cs ih => rw [List.flatMap_cons, unitsFrom_encodeChar, ih, List.map_cons]

end Unimported.Text.Utf8
