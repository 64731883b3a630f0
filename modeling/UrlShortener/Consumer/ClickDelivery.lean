import UrlShortener.Base.CString
import UrlShortener.Consumer.Click
import Mathlib.Data.List.Nodup

/-!
# UrlShortener.Consumer.ClickDelivery

What is committed and what is stored, over any crashes and restarts.

A message is `Handled` when its row is in the table, when `parse_event` rejects it, or when
`insert_once` gave it up. That can only become true (`Grows`), so it is enough to see that the
committed offset never gets past a message that is not handled. The process keeps more than that:
all messages before its position are handled but the one in hand (`Inv.position`).

Whether a row is the message's own is for the `event_id` to say. MySQL files rows under what the
collation of the column makes of it, and `ON DUPLICATE KEY` keeps the row that is there: of two
events whose ids differ in nothing but letter case the second is lost (`Swallows`).
-/

namespace UrlShortener
namespace Click

variable {V T K F : Type} {py : Python V} {key : V → K} {f : V → F} {s s' : State V} {p o : Nat}

def State.keys (key : V → K) (s : State V) : List K := s.rows.map fun r => key r.eventId

/-- The message at offset `o` of partition `p` has a row with its event id, as far as `f` tells ids
apart; or it is invalid, or poison. -/
def Handled (py : Python V) (f : V → F) (s : State V) (p o : Nat) : Prop :=
  ∃ msg, (s.log p)[o]? = some msg ∧
    ((∃ event row, parseEvent py msg = .event event ∧ eventRow py event = .ok row ∧
        ∃ r ∈ s.rows, f r.eventId = f row.eventId) ∨
      (∃ reason, parseEvent py msg = .invalid reason) ∨ (p, o) ∈ s.poison)

/-- The row that the next attempt inserts. -/
def State.rowInHand (py : Python V) (s : State V) : Option (Row V) :=
  match s.phase with
  | .inserting _ _ event _ => (eventRow py event).toOption
  | _ => none

/-- An insert that succeeds and stores nothing, for a row with another id that has the same key. -/
def Swallows (py : Python V) (f : V → F) (key : V → K) (s : State V) : Label → Prop
  | .attempt .success => ∃ row ∈ s.rowInHand py, ∃ r ∈ s.rows,
      key r.eventId = key row.eventId ∧ f r.eventId ≠ f row.eventId
  | _ => False

instance [DecidableEq K] [DecidableEq F] (py : Python V) (f : V → F) (key : V → K) (s : State V) :
    ∀ l, Decidable (Swallows py f key s l)
  | .attempt .success => inferInstanceAs (Decidable (∃ row ∈ _, ∃ r ∈ _, _))
  | .attempt (.fails _ _) => isFalse not_false
  | .produce _ _ => isFalse not_false
  | .start => isFalse not_false
  | .poll _ => isFalse not_false
  | .rebalance _ => isFalse not_false
  | .commit _ => isFalse not_false
  | .crash => isFalse not_false

/-- The row was made from the event of a consumed message. -/
def FromMessage (py : Python V) (s : State V) (row : Row V) : Prop :=
  ∃ p o msg event, (p, o) ∈ s.consumed ∧ (s.log p)[o]? = some msg ∧
    parseEvent py msg = .event event ∧ eventRow py event = .ok row

/-! ## What only grows -/

structure Grows (s s' : State V) : Prop where
  log : ∀ (p o : Nat) msg, (s.log p)[o]? = some msg → (s'.log p)[o]? = some msg
  rows : ∀ r ∈ s.rows, r ∈ s'.rows
  consumed : ∀ x ∈ s.consumed, x ∈ s'.consumed
  poison : ∀ x ∈ s.poison, x ∈ s'.poison

theorem Handled.mono (h : Handled py f s p o) (hg : Grows s s') : Handled py f s' p o := by
  obtain ⟨msg, hmsg, h⟩ := h
  refine ⟨msg, hg.log p o msg hmsg, ?_⟩
  rcases h with ⟨event, row, hp, hr, r, hmem, hid⟩ | hinv | hpois
  · exact Or.inl ⟨event, row, hp, hr, r, hg.rows r hmem, hid⟩
  · exact Or.inr (Or.inl hinv)
  · exact Or.inr (Or.inr (hg.poison _ hpois))

theorem FromMessage.mono {row : Row V} (h : FromMessage py s row) (hg : Grows s s') :
    FromMessage py s' row := by
  obtain ⟨p, o, msg, event, hc, hmsg, hp, hr⟩ := h
  exact ⟨p, o, msg, event, hg.consumed _ hc, hg.log p o msg hmsg, hp, hr⟩

/-- A step that changes none of the four. -/
theorem Grows.of_eq (hlog : s'.log = s.log) (hrows : s'.rows = s.rows)
    (hconsumed : s'.consumed = s.consumed) (hpoison : s'.poison = s.poison) : Grows s s' where
  log p o msg h := by rwa [hlog]
  rows r h := by rwa [hrows]
  consumed x h := by rwa [hconsumed]
  poison x h := by rwa [hpoison]

section Table

variable [DecidableEq K] {rows : List (Row V)} {row : Row V}

theorem insertRow_subset {r : Row V} (h : r ∈ rows) : r ∈ insertRow key rows row := by
  unfold insertRow
  split
  · exact h
  · exact List.mem_append_left _ h

/-- After an insert the row is there, unless the key has found another id. -/
theorem own_row_insertRow
    (h : ∀ r ∈ rows, key r.eventId = key row.eventId → f r.eventId = f row.eventId) :
    ∃ r ∈ insertRow key rows row, f r.eventId = f row.eventId := by
  unfold insertRow
  split
  · rename_i hmem
    obtain ⟨r, hr, hkey⟩ := List.mem_map.mp hmem
    exact ⟨r, hr, h r hr hkey⟩
  · exact ⟨row, List.mem_append_right _ (List.mem_singleton_self row), rfl⟩

theorem nodup_insertRow (h : (rows.map fun r => key r.eventId).Nodup) :
    ((insertRow key rows row).map fun r => key r.eventId).Nodup := by
  unfold insertRow
  split
  · exact h
  · rename_i hnot
    rw [List.map_append, List.map_singleton]
    refine List.nodup_append.mpr ⟨h, by simp, ?_⟩
    rintro k hk k' hk' rfl
    rw [List.mem_singleton.mp hk'] at hk
    exact hnot hk

theorem mem_insertRow {r : Row V} (h : r ∈ insertRow key rows row) : r ∈ rows ∨ r = row := by
  unfold insertRow at h
  split at h
  · exact Or.inl h
  · rcases List.mem_append.mp h with h | h
    · exact Or.inl h
    · exact Or.inr (List.mem_singleton.mp h)

variable {event : StrMap V} {a : Answer}

/-- An attempt leaves the table alone or does the insert of its event. -/
theorem insertEvent_rows (py : Python V) (key : V → K) (rows : List (Row V)) (event : StrMap V)
    (a : Answer) : (insertEvent py key rows event a).1 = rows ∨
    ∃ row, eventRow py event = .ok row ∧
      (insertEvent py key rows event a).1 = insertRow key rows row := by
  unfold insertEvent
  split
  · exact Or.inl rfl
  · rename_i row hrow
    split
    · exact Or.inr ⟨row, hrow, rfl⟩
    · split
      · exact Or.inr ⟨row, hrow, rfl⟩
      · exact Or.inl rfl

/-- An attempt without an exception has done it. -/
theorem insertEvent_ok (h : insertOnce (insertEvent py key rows event a).2 = .inserted) :
    a = .success ∧ ∃ row, eventRow py event = .ok row ∧
      (insertEvent py key rows event a).1 = insertRow key rows row := by
  have hok : (insertEvent py key rows event a).2 = .ok () := by
    generalize (insertEvent py key rows event a).2 = result at h
    cases result with
    | ok u => rfl
    | error e =>
      cases e with
      | mysql errno =>
        simp only [insertOnce] at h
        split at h <;> cases h
      | _ => cases h
  unfold insertEvent at hok ⊢
  split at hok
  · cases hok
  · rename_i row hrow
    split at hok
    · exact ⟨rfl, row, hrow, rfl⟩
    · cases hok

end Table

/-! ## The invariant -/

/-- The message being inserted. -/
def Phase.inHand : Phase V → Option (Nat × Nat)
  | .inserting p o _ _ => some (p, o)
  | _ => none

def Phase.running : Phase V → Bool
  | .ended => false
  | _ => true

structure Inv (py : Python V) (f : V → F) (key : V → K) (s : State V) : Prop where
  committed : ∀ p o, o < s.committed p → Handled py f s p o
  position : s.phase.running = true → ∀ p o, o < s.position p →
    s.phase.inHand ≠ some (p, o) → Handled py f s p o
  inserting : ∀ p o event n, s.phase = .inserting p o event n → o + 1 = s.position p ∧
    (p, o) ∈ s.consumed ∧ ∃ msg, (s.log p)[o]? = some msg ∧ parseEvent py msg = .event event
  committing : ∀ p o, s.phase = .committing p o → o + 1 = s.position p
  nodup : (s.keys key).Nodup
  rows : ∀ row ∈ s.rows, FromMessage py s row

theorem inv_init : Inv py f key ({} : State V) where
  committed p o h := by cases h
  position h := by cases h
  inserting p o event n h := by cases h
  committing p o h := by cases h
  nodup := .nil
  rows row h := by cases h

/-- A step outside of any message: from a state where none is in hand to one where none is. -/
theorem Inv.quiet (h : Inv py f key s) (hg : Grows s s') (hrows : s'.rows = s.rows)
    (hphase : s'.phase = .polling ∨ s'.phase = .ended)
    (hcommitted : ∀ p o, o < s'.committed p → Handled py f s p o)
    (hposition : s'.phase = .polling → ∀ p o, o < s'.position p → Handled py f s p o) :
    Inv py f key s' where
  committed p o ho := (hcommitted p o ho).mono hg
  position hrun p o ho _ := by
    rcases hphase with hph | hph
    · exact (hposition hph p o ho).mono hg
    · rw [hph] at hrun
      cases hrun
  inserting p o event n hins := by rcases hphase with hph | hph <;> rw [hph] at hins <;> cases hins
  committing p o hcom := by rcases hphase with hph | hph <;> rw [hph] at hcom <;> cases hcom
  nodup := by
    rw [State.keys, hrows]
    exact h.nodup
  rows row hrow := by
    rw [hrows] at hrow
    exact (h.rows row hrow).mono hg

theorem Inv.produce (h : Inv py f key s) (p : Nat) (msg : Message) :
    Inv py f key { s with log := Function.update s.log p (s.log p ++ [msg]) } := by
  have hg : Grows s { s with log := Function.update s.log p (s.log p ++ [msg]) } := by
    refine ⟨?_, fun _ h => h, fun _ h => h, fun _ h => h⟩
    intro q o m hm
    by_cases hq : q = p
    · subst hq
      simp only [Function.update_self]
      rw [List.getElem?_append_left (List.getElem?_eq_some_iff.mp hm).1]
      exact hm
    · simp only [Function.update_of_ne hq]
      exact hm
  refine ⟨fun q o ho => (h.committed q o ho).mono hg,
    fun hrun q o ho hne => (h.position hrun q o ho hne).mono hg, ?_, h.committing, h.nodup,
    fun row hrow => (h.rows row hrow).mono hg⟩
  intro q o event n hins
  obtain ⟨hpos, hc, m, hm, hp⟩ := h.inserting q o event n hins
  exact ⟨hpos, hc, m, hg.log q o m hm, hp⟩

theorem Inv.receive {msg : Message} (h : Inv py f key s) (hph : s.phase = .polling)
    (hmsg : (s.log p)[s.position p]? = some msg) : Inv py f key (s.receive py p msg) := by
  have hall : ∀ q o, o < s.position q → Handled py f s q o := by
    intro q o ho
    exact h.position (by rw [hph]; rfl) q o ho (by simp [hph, Phase.inHand])
  have hbefore : ∀ q o, o < Function.update s.position p (s.position p + 1) q →
      (q, o) ≠ (p, s.position p) → Handled py f s q o := by
    intro q o ho hne
    by_cases hq : q = p
    · subst hq
      rw [Function.update_self] at ho
      have : o ≠ s.position q := fun he => hne (by rw [he])
      exact hall q o (by omega)
    · rw [Function.update_of_ne hq] at ho
      exact hall q o ho
  have hg : Grows s (s.receive py p msg) := by
    unfold State.receive
    split <;>
      exact ⟨fun _ _ _ h => h, fun _ h => h, fun _ h => List.mem_append_left _ h, fun _ h => h⟩
  unfold State.receive at hg ⊢
  split at hg
  · rename_i reason hp
    refine ⟨fun q o ho => (h.committed q o ho).mono hg, ?_, ?_, ?_, h.nodup,
      fun row hrow => (h.rows row hrow).mono hg⟩
    · intro _ q o ho _
      by_cases hqo : (q, o) = (p, s.position p)
      · cases hqo
        exact ⟨msg, hmsg, Or.inr (Or.inl ⟨reason, hp⟩)⟩
      · exact (hbefore q o ho hqo).mono hg
    · intro q o event n hins
      cases hins
    · intro q o hcom
      cases hcom
      simp
  · rename_i event hp
    refine ⟨fun q o ho => (h.committed q o ho).mono hg, ?_, ?_, ?_, h.nodup,
      fun row hrow => (h.rows row hrow).mono hg⟩
    · intro _ q o ho hne
      have hqo : (q, o) ≠ (p, s.position p) := fun he => hne (by rw [he]; rfl)
      exact (hbefore q o ho hqo).mono hg
    · intro q o event n hins
      cases hins
      exact ⟨by simp, by simp, msg, hmsg, hp⟩
    · intro q o hcom
      cases hcom
  · refine h.quiet hg rfl (Or.inr rfl) h.committed ?_
    intro hph'
    cases hph'

section Attempt

variable [DecidableEq K] {event : StrMap V} {n : Nat} {a : Answer}

/-- The table after an attempt: what the phase becomes does not matter for it. -/
theorem Inv.table (h : Inv py f key s) (hph : s.phase = .inserting p o event n)
    (hg : Grows s s') (hrows : s'.rows = (insertEvent py key s.rows event a).1) :
    (s'.keys key).Nodup ∧ ∀ row ∈ s'.rows, FromMessage py s' row := by
  obtain ⟨-, hc, msg, hmsg, hp⟩ := h.inserting p o event n hph
  rw [State.keys, hrows]
  rcases insertEvent_rows py key s.rows event a with
    heq | ⟨row, hrow, heq⟩
  · rw [heq]
    exact ⟨h.nodup, fun r hr => (h.rows r hr).mono hg⟩
  · rw [heq]
    refine ⟨nodup_insertRow h.nodup, fun r hr => ?_⟩
    rcases mem_insertRow hr with hr | rfl
    · exact (h.rows r hr).mono hg
    · exact FromMessage.mono ⟨p, o, msg, event, hc, hmsg, hp, hrow⟩ hg

theorem grows_attempt : Grows s (s.attempt py key p o event n a) := by
  have hrows : ∀ r ∈ s.rows, r ∈ (insertEvent py key s.rows event a).1 := by
    intro r hr
    rcases insertEvent_rows py key s.rows event a with
      heq | ⟨row, -, heq⟩
    · rw [heq]
      exact hr
    · rw [heq]
      exact insertRow_subset hr
  unfold State.attempt
  simp only
  split
  · exact ⟨fun _ _ _ h => h, hrows, fun _ h => h, fun _ h => h⟩
  · exact ⟨fun _ _ _ h => h, hrows, fun _ h => h, fun _ h => List.mem_append_left _ h⟩
  · split <;> exact ⟨fun _ _ _ h => h, hrows, fun _ h => h, fun _ h => h⟩
  · exact ⟨fun _ _ _ h => h, hrows, fun _ h => h, fun _ h => h⟩

/-- An attempt that ends the work on a message has it handled. -/
theorem handled_attempt (h : Inv py f key s) (hph : s.phase = .inserting p o event n)
    (hok : ¬ Swallows py f key s (.attempt a))
    (hcom : (s.attempt py key p o event n a).phase = .committing p o) :
    Handled py f (s.attempt py key p o event n a) p o := by
  obtain ⟨-, -, msg, hmsg, hp⟩ := h.inserting p o event n hph
  unfold State.attempt at hcom ⊢
  simp only at hcom ⊢
  split at hcom
  · rename_i hins
    obtain ⟨rfl, row, hrow, heq⟩ := insertEvent_ok hins
    refine ⟨msg, hmsg, Or.inl ⟨event, row, hp, hrow, ?_⟩⟩
    have hhand : row ∈ s.rowInHand py := by
      simp only [State.rowInHand, hph, hrow]
      rfl
    rw [heq]
    refine own_row_insertRow fun r hr hkey => ?_
    by_contra hid
    exact hok ⟨row, hhand, r, hr, hkey, hid⟩
  · exact ⟨msg, hmsg, Or.inr (Or.inr (by simp))⟩
  · split at hcom <;> cases hcom
  · cases hcom

theorem phase_attempt (py : Python V) (key : V → K) (s : State V) (p o : Nat) (event : StrMap V)
    (n : Nat) (a : Answer) : (s.attempt py key p o event n a).phase = .committing p o ∨
    (s.attempt py key p o event n a).phase = .inserting p o event (n + 1) ∨
    (s.attempt py key p o event n a).phase = .ended := by
  unfold State.attempt
  simp only
  split
  · exact Or.inl rfl
  · exact Or.inl rfl
  · split
    · exact Or.inr (Or.inl rfl)
    · exact Or.inr (Or.inr rfl)
  · exact Or.inr (Or.inr rfl)

theorem Inv.attempt (h : Inv py f key s) (hph : s.phase = .inserting p o event n)
    (hok : ¬ Swallows py f key s (.attempt a)) :
    Inv py f key (s.attempt py key p o event n a) := by
  have hg : Grows s (s.attempt py key p o event n a) := grows_attempt
  obtain ⟨hrows, hpos, hcommitted⟩ :
      (s.attempt py key p o event n a).rows = (insertEvent py key s.rows event a).1 ∧
        (s.attempt py key p o event n a).position = s.position ∧
        (s.attempt py key p o event n a).committed = s.committed := by
    unfold State.attempt
    simp only
    split
    · exact ⟨rfl, rfl, rfl⟩
    · exact ⟨rfl, rfl, rfl⟩
    · split <;> exact ⟨rfl, rfl, rfl⟩
    · exact ⟨rfl, rfl, rfl⟩
  obtain ⟨hnodup, hfrom⟩ := h.table hph hg hrows
  obtain ⟨hoff, hc, msg, hmsg, hp⟩ := h.inserting p o event n hph
  have hbefore : ∀ q o', o' < s.position q → (q, o') ≠ (p, o) →
      Handled py f (s.attempt py key p o event n a) q o' := by
    intro q o' ho hne
    refine (h.position (by rw [hph]; rfl) q o' ho ?_).mono hg
    rw [hph]
    exact fun he => hne (Option.some.inj he).symm
  refine ⟨?_, ?_, ?_, ?_, hnodup, hfrom⟩
  · intro q o' ho
    rw [hcommitted] at ho
    exact (h.committed q o' ho).mono hg
  · intro hrun q o' ho hne
    rw [hpos] at ho
    by_cases hqo : (q, o') = (p, o)
    · cases hqo
      rcases phase_attempt py key s p o event n a with hcom | hins | hend
      · exact handled_attempt h hph hok hcom
      · rw [hins] at hne
        exact absurd rfl hne
      · rw [hend] at hrun
        cases hrun
    · exact hbefore q o' ho hqo
  · intro q o' event' n' hins'
    rcases phase_attempt py key s p o event n a with hcom | hins | hend
    · rw [hcom] at hins'
      cases hins'
    · rw [hins] at hins'
      cases hins'
      exact ⟨hpos.symm ▸ hoff, hg.consumed _ hc, msg, hg.log p o msg hmsg, hp⟩
    · rw [hend] at hins'
      cases hins'
  · intro q o' hcom'
    rcases phase_attempt py key s p o event n a with hcom | hins | hend
    · rw [hcom] at hcom'
      cases hcom'
      exact hpos.symm ▸ hoff
    · rw [hins] at hcom'
      cases hcom'
    · rw [hend] at hcom'
      cases hcom'

end Attempt

/-- All messages before the position are handled once `process_message` has returned. -/
theorem Inv.handled_before {q o' : Nat} (h : Inv py f key s) (hrun : s.phase.running = true)
    (hnone : s.phase.inHand = none) (ho : o' < s.position q) : Handled py f s q o' :=
  h.position hrun q o' ho (by rw [hnone]; exact fun he => by cases he)

theorem Inv.commit {stored : Bool} (h : Inv py f key s) (hph : s.phase = .committing p o) :
    Inv py f key { s with
      committed := if stored then Function.update s.committed p (o + 1) else s.committed
      phase := .polling } := by
  have hbefore : ∀ q o', o' < s.position q → Handled py f s q o' :=
    fun q o' ho => h.handled_before (by rw [hph]; rfl) (by rw [hph]; rfl) ho
  refine h.quiet (.of_eq rfl rfl rfl rfl) rfl (Or.inl rfl) ?_ fun _ => hbefore
  intro q o' ho
  cases stored with
  | false => exact h.committed q o' ho
  | true =>
    simp only [if_true] at ho
    by_cases hq : q = p
    · subst hq
      rw [Function.update_self, h.committing q o hph] at ho
      exact hbefore q o' ho
    · rw [Function.update_of_ne hq] at ho
      exact h.committed q o' ho

theorem Inv.rebalance (h : Inv py f key s) (hph : s.phase = .polling) :
    Inv py f key { s with position := Function.update s.position p (s.committed p) } := by
  refine h.quiet (.of_eq rfl rfl rfl rfl) rfl (Or.inl hph) h.committed ?_
  intro _ q o ho
  by_cases hq : q = p
  · subst hq
    simp only [Function.update_self] at ho
    exact h.committed q o ho
  · simp only [Function.update_of_ne hq] at ho
    exact h.handled_before (by rw [hph]; rfl) (by rw [hph]; rfl) ho

theorem Inv.step [DecidableEq K] {l : Label} (h : Inv py f key s) (hok : ¬ Swallows py f key s l)
    (hs : step py key s l = some s') : Inv py f key s' := by
  cases l with
  | produce p msg =>
    cases hs
    exact h.produce p msg
  | start =>
    simp only [Click.step] at hs
    split at hs
    · cases hs
      exact h.quiet (.of_eq rfl rfl rfl rfl) rfl (Or.inl rfl) h.committed fun _ => h.committed
    · cases hs
  | poll p =>
    simp only [Click.step] at hs
    split at hs
    · rename_i hph hmsg
      cases hs
      exact h.receive hph hmsg
    · cases hs
  | rebalance p =>
    simp only [Click.step] at hs
    split at hs
    · rename_i hph
      cases hs
      exact h.rebalance hph
    · cases hs
  | attempt a =>
    simp only [Click.step] at hs
    split at hs
    · rename_i hph
      cases hs
      exact h.attempt hph hok
    · cases hs
  | commit stored =>
    simp only [Click.step] at hs
    split at hs
    · rename_i hph
      cases hs
      exact h.commit hph
    · cases hs
  | crash =>
    cases hs
    refine h.quiet (.of_eq rfl rfl rfl rfl) rfl (Or.inr rfl) h.committed ?_
    intro hph
    cases hph

/-- What is equal is equal: no key tells more than itself. -/
theorem not_swallows_key {l : Label} : ¬ Swallows py key key s l := by
  intro h
  cases l with
  | attempt a =>
    cases a with
    | success =>
      obtain ⟨row, -, r, -, heq, hne⟩ := h
      exact hne heq
    | fails e stored => exact h
  | _ => exact h

/-- **Nothing committed is lost, nothing is stored twice.** The column `event_id` has the `text` of
an id, and MySQL files it under what the collation `coll` makes of this. For any messages, any
answers of MySQL at each attempt and any crashes and restarts the table has one row for a key, every
row was made from a consumed message, and every message below the committed offset has a row under
its key, is invalid, or was given up as poison. The row is the message's own, as long as no insert
is swallowed by a row whose id the collation takes for another one. -/
theorem delivery [DecidableEq K] (py : Python V) (text : V → T) (coll : T → K) (ls : List Label)
    (s : State V) (hr : Machine.run (step py (coll ∘ text)) {} ls = some s) :
    (∀ p o, o < s.committed p → Handled py (coll ∘ text) s p o) ∧ (s.keys (coll ∘ text)).Nodup ∧
      (∀ row ∈ s.rows, FromMessage py s row) ∧
      (Machine.Along (step py (coll ∘ text))
          (fun s l => ¬ Swallows py text (coll ∘ text) s l) {} ls →
        ∀ p o, o < s.committed p → Handled py text s p o) := by
  have h : Inv py (coll ∘ text) (coll ∘ text) s :=
    Machine.run_preserves _ (fun _ _ _ h hs => h.step not_swallows_key hs) inv_init hr
  refine ⟨h.committed, h.nodup, h.rows, fun hok => ?_⟩
  have hown : Inv py text (coll ∘ text) s :=
    Machine.run_invariant _ (fun _ _ _ h hok hs => h.step hok hs) inv_init hok hr
  exact hown.committed

/-- A click with this event id. -/
def clickText (eventId : Bytes) : Bytes :=
  ascii "\x7b\"event_id\":\"" ++ eventId ++
    ascii "\",\"short_code\":\"a\",\"clicked_at_ms\":1\x7d"

def clickDict (eventId : Bytes) : StrMap (Bytes ⊕ Int) :=
  AList.insert (ascii "event_id") (.inl eventId)
    (AList.insert (ascii "short_code") (.inl (ascii "a"))
      (AList.insert (ascii "clicked_at_ms") (.inr 1) ∅))

/-- Python as far as the messages below need it: two texts are click events, all others are no
JSON. -/
def twoPython : Python (Bytes ⊕ Int) where
  decode value := .ok value
  loads raw :=
    if raw = clickText (ascii "e") then .ok (.dict (clickDict (ascii "e")))
    else if raw = clickText (ascii "E") then .ok (.dict (clickDict (ascii "E")))
    else .error (.decodeError (ascii "Expecting value: line 1 column 1 (char 0)"))
  int
    | .inl _ => .error (.valueError (ascii "invalid literal for int() with base 10"))
    | .inr n => .ok n
  truthy
    | .inl text => decide (text ≠ [])
    | .inr n => decide (n ≠ 0)

/-- The text of an id in the column. -/
def columnText : Bytes ⊕ Int → Bytes
  | .inl text => text
  | .inr n => toDecimalInt n

/-- An insert that is stored but reported as failed, a crash, the same message again, and then one
that is no JSON. -/
def redelivered : List Label :=
  [.produce 0 ⟨some (clickText (ascii "e"))⟩, .produce 0 ⟨some (ascii "x")⟩, .start, .poll 0,
    .attempt (.fails (.mysql 2013) true), .crash, .start, .poll 0, .attempt .success, .commit true,
    .poll 0, .commit true]

theorem delivery_redelivered : ∃ s,
    Machine.run (step twoPython (lower ∘ columnText)) {} redelivered = some s ∧
      s.committed 0 = 2 ∧ s.rows.length = 1 ∧ (s.keys (lower ∘ columnText)).Nodup ∧
      ∀ p o, o < s.committed p → Handled twoPython columnText s p o := by
  have heval : (Machine.run (step twoPython (lower ∘ columnText)) {} redelivered).map
      (fun s => (s.committed 0, s.rows.length)) = some (2, 1) := by decide +kernel
  have hok : Machine.Along (step twoPython (lower ∘ columnText))
      (fun s l => ¬ Swallows twoPython columnText (lower ∘ columnText) s l) {} redelivered := by
    decide +kernel
  obtain ⟨s, hs, hs'⟩ := Option.map_eq_some_iff.mp heval
  obtain ⟨-, hnodup, -, hown⟩ := delivery twoPython columnText lower redelivered s hs
  obtain ⟨h0, h1⟩ := Prod.mk.inj hs'
  exact ⟨s, hs, h0, h1, hnodup, hown hok⟩

/-- Two clicks with the ids `e` and `E`, on a healthy MySQL whose collation ignores letter case. -/
def twoClicks : List Label :=
  [.produce 0 ⟨some (clickText (ascii "e"))⟩, .produce 0 ⟨some (clickText (ascii "E"))⟩, .start,
    .poll 0, .attempt .success, .commit true, .poll 0, .attempt .success, .commit true]

/-- The second click is committed and has no row. -/
theorem delivery_fails : ¬ ∀ (ls : List Label) (s : State (Bytes ⊕ Int)),
    Machine.run (step twoPython (lower ∘ columnText)) {} ls = some s →
      ∀ p o, o < s.committed p → Handled twoPython columnText s p o := by
  intro hall
  have heval : (Machine.run (step twoPython (lower ∘ columnText)) {} twoClicks).any (fun s =>
      decide (s.committed 0 = 2) &&
        decide (((s.log 0)[1]?).map Message.value = some (some (clickText (ascii "E")))) &&
        decide (s.rows.map (fun r => columnText r.eventId) = [ascii "e"]) &&
        decide (s.poison = [])) = true := by
    decide +kernel
  obtain ⟨s, hs, he⟩ := (Option.any_eq_true _ _).mp heval
  simp only [Bool.and_eq_true, decide_eq_true_eq] at he
  obtain ⟨⟨⟨hcommitted, hlog⟩, hrows⟩, hpoison⟩ := he
  have hparse : parseEvent twoPython ⟨some (clickText (ascii "E"))⟩ =
      .event (clickDict (ascii "E")) := rfl
  have hrow : (eventRow twoPython (clickDict (ascii "E"))).toOption.map
      (fun row => columnText row.eventId) = some (ascii "E") := by decide +kernel
  obtain ⟨⟨value⟩, hmsg, hhandled⟩ := hall twoClicks s hs 0 1 (by omega)
  rw [hmsg] at hlog
  obtain rfl : value = some (clickText (ascii "E")) := Option.some.inj hlog
  rcases hhandled with ⟨event, row, hp, hr, r, hmem, hid⟩ | ⟨reason, hp⟩ | hpois
  · rw [hparse] at hp
    cases hp
    rw [hr] at hrow
    have hmem : columnText r.eventId ∈ s.rows.map fun r => columnText r.eventId :=
      List.mem_map_of_mem hmem
    have hown : columnText row.eventId = ascii "E" := Option.some.inj hrow
    rw [hrows, List.mem_singleton, hid, hown] at hmem
    exact absurd hmem (by decide)
  · rw [hparse] at hp
    cases hp
  · rw [hpoison] at hpois
    cases hpois

end Click
end UrlShortener
