import Mathlib.Data.List.Basic
import Unimported.Import.Source
import Unimported.Proofs.Text.Utf8

/-!
# Reading by lines

A line feed ends whatever was open in front of it, so a file is read line by line: invalid bytes on
one line never change another.  How the lines are ended makes no difference either.  A carriage return
stands for a line feed, alone or together with one, and none is left in the text.

## Main definitions

* `Source.withReturns`, `Source.WithPairs` — the same lines with other endings.

## Main results

* `Text.unifyNewlines_append_lineFeed` — line endings are unified line by line.
* `Source.textOf_append_lineFeed` — **a line feed parts what is read in front of it and behind it.**
* `Source.textOf_encode` — what was encoded is read back.
* `Source.textOf_withReturns`, `Source.textOf_withPairs` — **other line endings give the same text.**
* `Source.read_by_lines` — all of this, of files.
-/

namespace Unimported

/-! ### Unified line endings -/

namespace Text

theorem unifyNewlines_cons_of_ne {c : Char} (h : c ≠ '\r') (cs : List Char) :
    unifyNewlines (c :: cs) = c :: unifyNewlines cs := by
  rw [unifyNewlines.eq_def]
  split
  · next heq => cases heq
  · next heq => exact absurd (List.cons.inj heq).1 h
  · next heq =>
    obtain ⟨rfl, rfl⟩ := List.cons.inj heq
    rw [if_neg h]

/-- A carriage return that no line feed follows ends a line. -/
theorem unifyNewlines_return {cs : List Char} (h : cs.head? ≠ some '\n') :
    unifyNewlines ('\r' :: cs) = '\n' :: unifyNewlines cs := by
  rw [unifyNewlines.eq_def]
  split
  · next heq => cases heq
  · next heq =>
    obtain ⟨-, rfl⟩ := List.cons.inj heq
    exact absurd rfl h
  · next heq =>
    obtain ⟨rfl, rfl⟩ := List.cons.inj heq
    rfl

/-- What holds no carriage return is left as it is, whatever follows. -/
theorem unifyNewlines_append_of_not_mem {cs : List Char} (h : '\r' ∉ cs) (rest : List Char) :
    unifyNewlines (cs ++ rest) = cs ++ unifyNewlines rest := by
  induction cs with
  | nil => rfl
  | cons c cs ih =>
    simp only [List.mem_cons, not_or] at h
    rw [List.cons_append, unifyNewlines_cons_of_ne (Ne.symm h.1), ih h.2, List.cons_append]

/-- **Line endings are unified line by line**, unless a pair is torn apart. -/
theorem unifyNewlines_append_lineFeed {cs : List Char} (h : cs.getLast? ≠ some '\r')
    (rest : List Char) :
    unifyNewlines (cs ++ '\n' :: rest) = unifyNewlines cs ++ '\n' :: unifyNewlines rest := by
  have hne : '\n' ≠ '\r' := by decide
  fun_induction unifyNewlines cs with
  | case1 => exact unifyNewlines_cons_of_ne hne rest
  | case2 cs ih =>
    have hlast : cs.getLast? ≠ some '\r' := by
      cases cs with
      | nil => simp
      | cons c cs => simpa [List.getLast?_cons_cons] using h
    rw [List.cons_append, List.cons_append, unifyNewlines, ih hlast, List.cons_append]
  | case3 c cs hpair ih =>
    have hlast : cs.getLast? ≠ some '\r' := by
      cases cs with
      | nil => simp
      | cons d cs => simpa [List.getLast?_cons_cons] using h
    by_cases hc : c = '\r'
    · -- it is not the last character, and the next one is no line feed
      subst hc
      obtain ⟨d, ds, rfl⟩ := List.exists_cons_of_ne_nil
        (show cs ≠ [] from fun hnil => h (by rw [hnil]; rfl))
      have hd : d ≠ '\n' := fun hd => hpair ds rfl (by rw [hd])
      rw [List.cons_append, List.cons_append, unifyNewlines_return (by simpa using hd),
        ← List.cons_append, ih hlast, if_pos rfl, List.cons_append]
    · rw [List.cons_append, unifyNewlines_cons_of_ne hc, ih hlast, if_neg hc, List.cons_append]

end Text

namespace Source

open Text (unifyNewlines)
open Text.Utf8 (decode encode)

variable {bytes bytes' front back : List UInt8}

/-! ### Lines of bytes -/

theorem decode_append_lineFeed (front back : List UInt8) :
    decode (front ++ 0x0A :: back) = decode front ++ '\n' :: decode back :=
  Text.Utf8.decode_append_ascii (by decide) front back

theorem decode_append_return (front back : List UInt8) :
    decode (front ++ 0x0D :: back) = decode front ++ '\r' :: decode back :=
  Text.Utf8.decode_append_ascii (by decide) front back

theorem return_not_mem_decode (h : 0x0D ∉ bytes) : '\r' ∉ decode bytes := by
  intro hmem
  obtain ⟨b, hb, heq⟩ := Text.Utf8.mem_of_mem_decode (by decide) (by decide) hmem
  exact h ((UInt8.toNat_inj.mp heq : b = 0x0D) ▸ hb)

theorem lineFeed_not_mem_decode (h : 0x0A ∉ bytes) : '\n' ∉ decode bytes := by
  intro hmem
  obtain ⟨b, hb, heq⟩ := Text.Utf8.mem_of_mem_decode (by decide) (by decide) hmem
  exact h ((UInt8.toNat_inj.mp heq : b = 0x0A) ▸ hb)

/-- What is read ends in a carriage return only where the bytes do. -/
theorem getLast?_decode (h : bytes.getLast? ≠ some 0x0D) : (decode bytes).getLast? ≠ some '\r' := by
  by_cases hmem : 0x0D ∈ bytes
  · -- something else stands behind the last carriage return, and it is read on its own
    obtain ⟨back, front, hreverse, hback⟩ := List.eq_append_cons_of_mem (List.mem_reverse.mpr hmem)
    obtain rfl : bytes = front.reverse ++ 0x0D :: back.reverse := by
      simpa using congrArg List.reverse hreverse
    have hne : back.reverse ≠ [] := by
      intro hnil
      rw [hnil] at h
      simp at h
    rw [decode_append_return, List.getLast?_append_cons,
      List.getLast?_cons_of_ne_nil (Text.Utf8.decode_ne_nil hne)]
    exact fun hlast => return_not_mem_decode (by simpa using hback) (List.mem_of_getLast? hlast)
  · exact fun hlast => return_not_mem_decode hmem (List.mem_of_getLast? hlast)

/-! ### Texts -/

/-- **A line feed parts what is read in front of it and behind it**, unless a carriage return stands
right in front of it. -/
theorem textOf_append_lineFeed (h : front.getLast? ≠ some 0x0D) (back : List UInt8) :
    textOf (front ++ 0x0A :: back) = textOf front ++ "\n" ++ textOf back := by
  rw [textOf, decode_append_lineFeed, Text.unifyNewlines_append_lineFeed (getLast?_decode h),
    ← String.toList_inj]
  simp [textOf]

theorem return_not_mem_textOf (bytes : List UInt8) : '\r' ∉ (textOf bytes).toList := by
  rw [textOf, String.toList_ofList]
  exact Text.not_mem_unifyNewlines _

/-- **What was encoded is read back**, if it holds no carriage return. -/
theorem textOf_encode {t : String} (h : '\r' ∉ t.toList) : textOf (encode t.toList) = t := by
  rw [textOf, Text.Utf8.decode_encode, Text.unifyNewlines_of_not_mem h, String.ofList_toList]

/-! ### Other line endings -/

/-- The bytes with a carriage return in place of each line feed. -/
def withReturns (bytes : List UInt8) : List UInt8 := bytes.map fun b => if b = 0x0A then 0x0D else b

/-- The second byte string is the first one with a carriage return in front of some line feeds. -/
inductive WithPairs : List UInt8 → List UInt8 → Prop where
  /-- Nothing is left. -/
  | nil : WithPairs [] []
  /-- A byte stays as it is. -/
  | keep (b : UInt8) {bytes bytes' : List UInt8} :
      WithPairs bytes bytes' → WithPairs (b :: bytes) (b :: bytes')
  /-- A line feed is given a carriage return. -/
  | pair {bytes bytes' : List UInt8} :
      WithPairs bytes bytes' → WithPairs (0x0A :: bytes) (0x0D :: 0x0A :: bytes')

/-- A line that a carriage return ends is read as one that a line feed ends, if what follows is. -/
theorem unifyNewlines_ended {back' : List UInt8} (hfront : 0x0D ∉ front)
    (h : unifyNewlines ('\r' :: decode back') = '\n' :: decode back) :
    unifyNewlines (decode (front ++ 0x0D :: back')) = decode (front ++ 0x0A :: back) := by
  rw [decode_append_return, decode_append_lineFeed,
    Text.unifyNewlines_append_of_not_mem (return_not_mem_decode hfront), h]

/-- The induction goes over the bytes behind a line that was begun, so that it may be cut at the line
feeds only. -/
theorem unifyNewlines_withPairs (h : WithPairs bytes bytes') (hbytes : 0x0D ∉ bytes)
    (hfront : 0x0D ∉ front) :
    unifyNewlines (decode (front ++ bytes')) = decode (front ++ bytes) := by
  induction h generalizing front with
  | nil =>
    rw [List.append_nil]
    exact Text.unifyNewlines_of_not_mem (return_not_mem_decode hfront)
  | keep b _ ih =>
    simp only [List.mem_cons, not_or] at hbytes
    have hbegun : 0x0D ∉ front ++ [b] := by simp [hfront, hbytes.1]
    simpa only [List.append_assoc, List.singleton_append] using ih hbytes.2 hbegun
  | @pair bytes bytes' _ ih =>
    have hrest := ih (fun h => hbytes (List.mem_cons_of_mem _ h)) List.not_mem_nil
    have hpair : decode (0x0A :: bytes') = '\n' :: decode bytes' := decode_append_lineFeed [] bytes'
    refine unifyNewlines_ended hfront ?_
    rw [hpair, unifyNewlines]
    exact congrArg ('\n' :: ·) hrest

/-- No line feed is left to go with a carriage return. -/
theorem lineFeed_not_mem_withReturns (bytes : List UInt8) : 0x0A ∉ withReturns bytes := by
  intro hmem
  obtain ⟨b, -, hb⟩ := List.mem_map.mp hmem
  split at hb
  · cases hb
  · contradiction

theorem unifyNewlines_withReturns (hbytes : 0x0D ∉ bytes) (hfront : 0x0D ∉ front) :
    unifyNewlines (decode (front ++ withReturns bytes)) = decode (front ++ bytes) := by
  induction bytes generalizing front with
  | nil =>
    rw [withReturns, List.map_nil, List.append_nil]
    exact Text.unifyNewlines_of_not_mem (return_not_mem_decode hfront)
  | cons b bytes ih =>
    simp only [List.mem_cons, not_or] at hbytes
    by_cases hb : b = 0x0A
    · subst hb
      have hrest := ih hbytes.2 (List.not_mem_nil : (0x0D : UInt8) ∉ [])
      have hcons : withReturns (0x0A :: bytes) = 0x0D :: withReturns bytes := rfl
      have hhead : (decode (withReturns bytes)).head? ≠ some '\n' := fun h =>
        lineFeed_not_mem_decode (lineFeed_not_mem_withReturns bytes) (List.mem_of_head? h)
      rw [hcons]
      refine unifyNewlines_ended hfront ?_
      rw [Text.unifyNewlines_return hhead]
      exact congrArg ('\n' :: ·) hrest
    · have hcons : withReturns (b :: bytes) = b :: withReturns bytes := by
        simp [withReturns, hb]
      have hbegun : 0x0D ∉ front ++ [b] := by simp [hfront, hbytes.1]
      rw [hcons]
      simpa only [List.append_assoc, List.singleton_append] using ih hbytes.2 hbegun

theorem textOf_eq_of_unified (h : 0x0D ∉ bytes)
    (hunified : unifyNewlines (decode bytes') = decode bytes) : textOf bytes' = textOf bytes := by
  rw [textOf, textOf, hunified, Text.unifyNewlines_of_not_mem (return_not_mem_decode h)]

/-- **Carriage returns in place of line feeds give the same text.** -/
theorem textOf_withReturns (h : 0x0D ∉ bytes) : textOf (withReturns bytes) = textOf bytes :=
  have hbegun : (0x0D : UInt8) ∉ [] := List.not_mem_nil
  textOf_eq_of_unified h (unifyNewlines_withReturns h hbegun)

/-- **Pairs in place of some line feeds give the same text.** -/
theorem textOf_withPairs (h : 0x0D ∉ bytes) (hpairs : WithPairs bytes bytes') :
    textOf bytes' = textOf bytes :=
  have hbegun : (0x0D : UInt8) ∉ [] := List.not_mem_nil
  textOf_eq_of_unified h (unifyNewlines_withPairs hpairs h hbegun)

/-! ### Files -/

/-- What a readable file gives: a text, and the specifiers in this text. -/
structure Gives (fs : FileSystem) (p : Path) (text : String) : Prop where
  read_eq : read fs p = .ok text
  imports_eq : imports fs p = .done (Import.specifiers text)

/-- A file gives the text of its bytes, and nothing else about it counts. -/
theorem gives_textOf {fs : FileSystem} {p : Path} (h : fs.read p = .ok bytes) :
    Gives fs p (textOf bytes) := by
  have hread : read fs p = .ok (textOf bytes) := by rw [read, h]
  exact ⟨hread, by rw [imports, hread]⟩

theorem Gives.eq_of_textOf {fs fs' : FileSystem} {p p' : Path} (h : fs.read p = .ok bytes)
    (h' : fs'.read p' = .ok bytes') (heq : textOf bytes' = textOf bytes) :
    read fs' p' = read fs p ∧ imports fs' p' = imports fs p := by
  have hgives := gives_textOf h
  have hgives' := gives_textOf h'
  rw [heq] at hgives'
  exact ⟨hgives'.read_eq.trans hgives.read_eq.symm, hgives'.imports_eq.trans hgives.imports_eq.symm⟩

/-- **Files are read line by line, whatever their lines end in.**  A readable file gives the text of
its bytes, and its specifiers are those in this text.  No carriage return is left in it.  A line feed
parts it, unless a carriage return stands right in front, so that what is invalid on one line changes
no other.  What was encoded is read back.  And carriage returns in place of the line feeds, or in front
of some of them, change neither the text nor the specifiers. -/
theorem read_by_lines :
    (∀ (fs : FileSystem) (p : Path) (bytes : List UInt8), fs.read p = .ok bytes →
      Gives fs p (textOf bytes)) ∧
    (∀ bytes : List UInt8, '\r' ∉ (textOf bytes).toList) ∧
    (∀ front back : List UInt8, front.getLast? ≠ some 0x0D →
      textOf (front ++ 0x0A :: back) = textOf front ++ "\n" ++ textOf back) ∧
    (∀ t : String, '\r' ∉ t.toList → textOf (encode t.toList) = t) ∧
    ∀ (fs fs' : FileSystem) (p p' : Path) (bytes bytes' : List UInt8), fs.read p = .ok bytes →
      fs'.read p' = .ok bytes' → 0x0D ∉ bytes →
      bytes' = withReturns bytes ∨ WithPairs bytes bytes' →
      read fs' p' = read fs p ∧ imports fs' p' = imports fs p := by
  refine ⟨fun _ _ _ => gives_textOf, return_not_mem_textOf, fun _ back h =>
    textOf_append_lineFeed h back, fun _ => textOf_encode, ?_⟩
  intro fs fs' p p' bytes bytes' hread hread' hplain hother
  refine Gives.eq_of_textOf hread hread' ?_
  rcases hother with rfl | hpairs
  · exact textOf_withReturns hplain
  · exact textOf_withPairs hplain hpairs

/-- A file with given bytes. -/
def single (bytes : List UInt8) : FileSystem where
  tree := ⟨[.of ["a.ts"] (.file bytes)]⟩
  cwd := []

/-- A character that is broken off by the end of its line leaves the next line as it is, and the line
may end in either way. -/
theorem read_by_lines_broken :
    textOf [0xE2, 0x82, 0x0A, 0x41] = "\uFFFD\nA" ∧
      read (single [0xE2, 0x82, 0x0D, 0x0A, 0x41]) ⟨.current, ["a.ts"]⟩ =
        read (single [0xE2, 0x82, 0x0A, 0x41]) ⟨.current, ["a.ts"]⟩ := by
  obtain ⟨-, -, happend, -, hendings⟩ := read_by_lines
  have hparts := happend [0xE2, 0x82] [0x41] (by decide)
  have hpairs : WithPairs [0xE2, 0x82, 0x0A, 0x41] [0xE2, 0x82, 0x0D, 0x0A, 0x41] :=
    .keep _ (.keep _ (.pair (.keep _ .nil)))
  have hread (bytes : List UInt8) : (single bytes).read ⟨.current, ["a.ts"]⟩ = .ok bytes := rfl
  exact ⟨hparts.trans (by decide +kernel),
    (hendings _ _ _ _ _ _ (hread _) (hread _) (by decide) (Or.inr hpairs)).1⟩

end Source

end Unimported
