import Unimported.Proofs.Outcome
import Unimported.Proofs.Value.Table
import Unimported.Toml.Document

/-!
# The tables of a document

A document gives a value to a name once.  Headers and dotted keys change tables that are there
already, and they do so under the names that these have; and an inline table refuses a name that it
has.  So nothing is named twice in the table of a document, nor in the tables that stand in it.  The
tables in arrays are left out, because no setting is read from them.

## Main definitions

* `Table.Distinct` — nothing is named twice in a table and in those that stand in it.
* `Toml.Finds`, `Toml.Yields` — what is true of whatever an attempt finds or a reader gives.

## Main results

* `Toml.atKey_distinct` — a change behind a key keeps names apart.
* `Toml.yields_value` — a value that is read keeps names apart.
* `Toml.distinct_read` — **in the table of a document nothing is named twice.**
-/

namespace Unimported

/-- Nothing is named twice in a table, nor in the tables that stand in it. -/
inductive Table.Distinct : Table → Prop where
  /-- The names differ, and the tables under them are such tables. -/
  | of {t : Table} :
      t.names.Nodup → (∀ name sub, (name, Value.table sub) ∈ t → Distinct sub) → Distinct t

/-- If a value is a table, nothing is named twice in it. -/
def Value.Distinct (v : Value) : Prop := ∀ sub, v = .table sub → Table.Distinct sub

namespace Table.Distinct

variable {t : Table} {name : String} {v : Value}

theorem nodup_names (h : Distinct t) : t.names.Nodup := by
  cases h with
  | of hnames => exact hnames

theorem nil : Distinct [] := .of List.nodup_nil fun _ _ h => nomatch h

theorem get? (h : Distinct t) (hv : Table.get? t name = some v) : v.Distinct := by
  rintro sub rfl
  cases h with
  | of _ hsub => exact hsub name sub (mem_of_get? hv)

theorem set (h : Distinct t) (hv : v.Distinct) (name : String) : Distinct (Table.set t name v) := by
  cases h with
  | of hnames hsub =>
    refine .of (nodup_set hnames) fun other sub hmem => ?_
    rcases mem_set hmem with heq | hmem
    · exact hv sub (Prod.mk.inj heq).2.symm
    · exact hsub other sub hmem

theorem value (h : Distinct t) : Value.Distinct (.table t) := by
  intro sub hsub
  obtain rfl := Value.table.inj hsub
  exact h

end Table.Distinct

theorem Value.distinct_list (items : List Value) : Value.Distinct (.list items) := nofun

namespace Toml

open Outcome (bind_eq_ok)

/-! ### Changes of tables -/

/-- A change keeps names apart. -/
def Keeps (change : Table → Except Flaw Table) : Prop :=
  ∀ t u, t.Distinct → change t = .ok u → u.Distinct

theorem map_eq_ok {ε α β : Type} {x : Except ε α} {f : α → β} {b : β} (h : x.map f = .ok b) :
    ∃ a, x = .ok a ∧ f a = b := by
  cases x with
  | error e => cases h
  | ok a => exact ⟨a, rfl, Except.ok.inj h⟩

/-- **A change behind a key keeps names apart** if it does so where it is made. -/
theorem atKey_distinct {change : Table → Except Flaw Table} (hchange : Keeps change)
    (throughArrays : Bool) (key : Key) : Keeps (atKey throughArrays change key) := by
  induction key with
  | nil => exact hchange
  | cons k key ih =>
    intro t u ht h
    rw [atKey] at h
    split at h
    · obtain ⟨sub, hsub, rfl⟩ := map_eq_ok h
      exact ht.set (ih _ _ .nil hsub).value k
    · next sub hget =>
      obtain ⟨sub', hsub', rfl⟩ := map_eq_ok h
      exact ht.set (ih _ _ (ht.get? hget sub rfl) hsub').value k
    · -- an array stands for its last table, and stays an array
      split at h
      · obtain ⟨sub', -, rfl⟩ := map_eq_ok h
        exact ht.set (Value.distinct_list _) k
      · cases h
    · cases h

theorem keeps_addNew {flaw : Flaw} {name : String} {v : Value} (hv : v.Distinct) :
    Keeps (addNew flaw name v) := by
  intro t u ht h
  unfold addNew at h
  split at h
  · obtain rfl := Except.ok.inj h
    exact ht.set hv name
  · cases h

theorem keeps_appendTable (key : Key) : Keeps (appendTable key) := by
  refine atKey_distinct (fun t u ht h => ?_) true _
  unfold appendUnder at h
  split at h
  · obtain rfl := Except.ok.inj h
    exact ht.set (Value.distinct_list _) _
  · obtain rfl := Except.ok.inj h
    exact ht.set (Value.distinct_list _) _
  · cases h

theorem keeps_addInline (closed : List Key) (k : Key) {v : Value} (hv : v.Distinct) :
    Keeps (addInline closed k v) := by
  intro t u ht h
  unfold addInline at h
  split at h
  · cases h
  · exact atKey_distinct (keeps_addNew hv) false _ t u ht h

/-! ### What attempts find -/

/-- Whatever an attempt finds has a property. -/
def Finds {α : Type} (P : α → Prop) (x : Attempt α) : Prop :=
  ∀ cs a rest, x.run cs = some (a, rest) → P a

section Finds

variable {α β : Type} {Q : α → Prop} {P : β → Prop}

theorem Finds.bind {x : Attempt α} {f : α → Attempt β} (hx : Finds Q x)
    (hf : ∀ a, Q a → Finds P (f a)) : Finds P (x >>= f) := by
  intro cs b rest hb
  rw [StateT.run_bind] at hb
  obtain ⟨⟨a, cs'⟩, ha, hf'⟩ := Option.bind_eq_some_iff.mp hb
  exact hf a (hx cs a cs' ha) cs' b rest hf'

/-- Only the last step counts, whatever the first one finds. -/
theorem Finds.after {x : Attempt α} {f : α → Attempt β} (h : ∀ a, Finds P (f a)) :
    Finds P (x >>= f) :=
  Finds.bind (Q := fun _ => True) (fun _ _ _ _ => trivial) fun a _ => h a

theorem finds_pure {b : β} (h : P b) : Finds P (pure b) := by
  intro cs b' rest hb
  cases hb
  exact h

theorem finds_failure : Finds P (failure : Attempt β) := fun _ _ _ h => nomatch h

theorem Finds.map {x : Attempt α} (hx : Finds Q x) {f : α → β} (h : ∀ a, Q a → P (f a)) :
    Finds P (f <$> x) := by
  rw [map_eq_pure_bind]
  exact hx.bind fun a ha => finds_pure (h a ha)

theorem Finds.orElse {x y : Attempt β} (hx : Finds P x) (hy : Finds P y) :
    Finds P (x <|> y) := by
  intro cs b rest hb
  have hb' : (x.run cs <|> y.run cs) = some (b, rest) := hb
  cases hr : x.run cs with
  | none => exact hy cs b rest (by rwa [hr] at hb')
  | some r =>
    rw [hr] at hb'
    exact hx cs b rest (hr.trans hb')

end Finds

theorem finds_dayOrMoment : Finds (fun r => r.2.Distinct) dayOrMoment := by
  refine Finds.after fun date => Finds.after fun time => ?_
  split
  · exact finds_pure nofun
  · exact finds_pure nofun

theorem finds_based (letter : Char) (p : Char → Bool) (base : Nat) :
    Finds Value.Distinct (based letter p base) :=
  Finds.after fun _ => Finds.after fun _ => Finds.after fun _ => finds_pure nofun

theorem finds_number : Finds (fun o => ∀ v, o = some v → v.Distinct) number := by
  have hbased (letter : Char) (p : Char → Bool) (base : Nat) :
      Finds (fun o => ∀ v, o = some v → v.Distinct) (some <$> based letter p base) :=
    (finds_based letter p base).map fun v hv w hw => Option.some.inj hw ▸ hv
  refine (hbased _ _ _).orElse ((hbased _ _ _).orElse ((hbased _ _ _).orElse ?_))
  refine Finds.after fun sign => Finds.after fun whole => Finds.after fun fraction =>
    Finds.after fun exponent => ?_
  simp only
  split
  · split
    · exact finds_pure nofun
    · exact finds_pure fun v hv => Option.some.inj hv ▸ nofun
  · exact finds_pure fun v hv => Option.some.inj hv ▸ nofun

theorem finds_special : Finds Value.Distinct special := by
  refine Finds.after fun cs => ?_
  split
  refine Finds.after fun _ => Finds.after fun _ => ?_
  split
  · exact finds_pure nofun
  · exact finds_failure

/-! ### What readers give -/

/-- Whatever a reader gives has a property. -/
def Yields {α : Type} (P : α → Prop) (r : Reader α) : Prop :=
  ∀ cs a rest, r.run cs = .ok (a, rest) → P a

section Yields

variable {α β : Type} {Q : α → Prop} {P : β → Prop}

theorem Yields.bind {x : Reader α} {f : α → Reader β} (hx : Yields Q x)
    (hf : ∀ a, Q a → Yields P (f a)) : Yields P (x >>= f) := by
  intro cs b rest hb
  rw [StateT.run_bind] at hb
  obtain ⟨⟨a, cs'⟩, ha, hf'⟩ := bind_eq_ok.mp hb
  exact hf a (hx cs a cs' ha) cs' b rest hf'

/-- Only the last step counts, whatever the first one gives. -/
theorem Yields.after {x : Reader α} {f : α → Reader β} (h : ∀ a, Yields P (f a)) :
    Yields P (x >>= f) :=
  Yields.bind (Q := fun _ => True) (fun _ _ _ _ => trivial) fun a _ => h a

theorem yields_pure {b : β} (h : P b) : Yields P (pure b) := by
  intro cs b' rest hb
  cases hb
  exact h

theorem yields_throw (fault : Fault) : Yields P (throw fault : Reader β) := fun _ _ _ h => nomatch h

theorem yields_fail (flaw : Flaw) : Yields P (fail flaw : Reader β) :=
  Yields.after fun _ => yields_throw _

theorem yields_obey {x : Except Flaw β} (h : ∀ b, x = .ok b → P b) : Yields P (obey x) := by
  cases x with
  | ok b => exact yields_pure (h b rfl)
  | error flaw => exact yields_fail flaw

end Yields

theorem yields_scalar : Yields Value.Distinct scalar := by
  refine Yields.after fun cs => ?_
  split
  · next date v rest hfound =>
    split
    · exact Yields.after fun _ => yields_pure (finds_dayOrMoment cs _ rest hfound)
    · exact yields_fail _
  · split
    · exact Yields.after fun _ => yields_pure nofun
    · split
      · next v rest hfound =>
        exact Yields.after fun _ => yields_pure (finds_number cs _ rest hfound v rfl)
      · exact yields_throw _
      · split
        · next v rest hfound =>
          exact Yields.after fun _ => yields_pure (finds_special cs v rest hfound)
        · exact yields_fail _

/-- **A value that is read keeps names apart**, and so do the pairs of an inline table. -/
theorem yields_value (fuel : Nat) :
    (∀ depth, Yields Value.Distinct (value fuel depth)) ∧
      ∀ depth closed t, t.Distinct → Yields Table.Distinct (pairs fuel depth closed t) := by
  induction fuel with
  | zero =>
    refine ⟨fun depth => ?_, fun depth closed t ht => ?_⟩
    · rw [value]
      exact yields_fail _
    · rw [pairs]
      exact yields_fail _
  | succ fuel ih =>
    obtain ⟨ihvalue, ihpairs⟩ := ih
    refine ⟨fun depth => ?_, fun depth closed t ht => ?_⟩
    · rw [value]
      refine Yields.after fun cs => ?_
      split
      · exact Yields.after fun _ => yields_pure nofun
      · exact Yields.after fun _ => yields_pure nofun
      · refine Yields.after fun depth => Yields.after fun _ => Yields.after fun _ =>
          Yields.after fun empty => ?_
        split
        · exact yields_pure (Value.distinct_list _)
        · exact Yields.after fun items => yields_pure (Value.distinct_list items)
      · refine Yields.after fun depth => Yields.after fun _ => Yields.after fun _ =>
          Yields.after fun empty => ?_
        split
        · exact yields_pure Table.Distinct.nil.value
        · exact (ihpairs depth [] [] .nil).bind fun t ht => yields_pure ht.value
      · refine Yields.after fun isTrue => ?_
        split
        · exact yields_pure nofun
        · refine Yields.after fun isFalse => ?_
          split
          · exact yields_pure nofun
          · exact yields_scalar
    · rw [pairs]
      refine Yields.after fun cs => Yields.after fun k => Yields.after fun _ =>
        Yields.after fun _ => (ihvalue depth).bind fun v hv => ?_
      refine (yields_obey fun u hu => keeps_addInline closed k hv t u ht hu).bind fun u hu => ?_
      refine Yields.after fun _ => Yields.after fun closes => ?_
      split
      · exact yields_pure hu
      · exact Yields.after fun _ => Yields.after fun _ => ihpairs depth _ u hu

/-! ### Documents -/

/-- A statement gives no value in which something is named twice. -/
def Statement.Distinct : Statement → Prop
  | .pair _ v => v.Distinct
  | .table _ | .item _ => True

theorem yields_statement : Yields (fun o => ∀ s, o = some s → s.Distinct) statement := by
  have hpair (fuel : Nat) : Yields (fun o : Option Statement => ∀ s, o = some s → s.Distinct) (do
      let k ← key fuel
      expect "=" .notPair
      skip isSpace
      return some (Statement.pair k (← value fuel Unimported.Fault.deepestNesting))) :=
    Yields.after fun k => Yields.after fun _ => Yields.after fun _ =>
      ((yields_value fuel).1 _).bind fun v hv => yields_pure fun s hs => Option.some.inj hs ▸ hv
  refine Yields.after fun cs => ?_
  simp only
  split
  · exact yields_pure nofun
  · exact yields_pure nofun
  · exact yields_pure nofun
  · exact Yields.after fun _ => Yields.after fun _ => Yields.after fun k =>
      yields_pure fun s hs => Option.some.inj hs ▸ trivial
  · exact Yields.after fun _ => Yields.after fun _ => Yields.after fun k =>
      yields_pure fun s hs => Option.some.inj hs ▸ trivial
  · split
    · exact Yields.after fun _ => hpair _
    · exact hpair _

namespace Draft

/-- A statement keeps names apart. -/
theorem distinct_add {d d' : Draft} {s : Statement} (hd : d.data.Distinct) (hs : s.Distinct)
    (h : d.add s = .ok d') : d'.data.Distinct := by
  cases s with
  | pair k v =>
    unfold add addPair at h
    simp only at h
    split at h
    · cases h
    · split at h
      · cases h
      · obtain ⟨data, hdata, rfl⟩ := map_eq_ok h
        exact atKey_distinct (keeps_addNew hs) true _ _ data hd hdata
  | table k =>
    unfold add openTable at h
    simp only at h
    split at h
    · cases h
    · obtain ⟨data, hdata, rfl⟩ := map_eq_ok h
      refine atKey_distinct (fun t u ht hu => ?_) true k _ data hd hdata
      exact Except.ok.inj hu ▸ ht
  | item k =>
    unfold add openItem at h
    simp only at h
    split at h
    · cases h
    · obtain ⟨data, hdata, rfl⟩ := map_eq_ok h
      exact keeps_appendTable k _ data hd hdata

theorem yields_addLine {d : Draft} (hd : d.data.Distinct) :
    Yields (fun d' => d'.data.Distinct) d.addLine := by
  refine Yields.after fun _ => yields_statement.bind fun o ho => ?_
  split
  · exact Yields.after fun _ => yields_pure hd
  · next s =>
    refine (yields_obey fun d' hd' => distinct_add hd (ho s rfl) hd').bind fun d' hd' => ?_
    exact Yields.after fun _ => Yields.after fun _ => yields_pure hd'

/-- All lines keep names apart. -/
theorem yields_addLines (fuel : Nat) {d : Draft} (hd : d.data.Distinct) :
    Yields (fun d' => d'.data.Distinct) (addLines fuel d) := by
  induction fuel generalizing d with
  | zero => exact yields_pure hd
  | succ fuel ih =>
    refine Yields.after fun cs => ?_
    split
    · exact yields_pure hd
    · exact (yields_addLine hd).bind fun d' hd' => ih hd'

end Draft

/-- **In the table of a document nothing is named twice.** -/
theorem distinct_read {document : List Char} {data : Table} (h : read document = .ok data) :
    data.Distinct := by
  unfold read at h
  simp only at h
  split at h
  · next d rest hrun =>
    obtain rfl := Except.ok.inj h
    exact Draft.yields_addLines _ .nil _ d rest hrun
  · cases h

end Toml

end Unimported
