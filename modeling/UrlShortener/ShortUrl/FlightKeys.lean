import UrlShortener.ShortUrl.FlightSafety

/-!
# UrlShortener.ShortUrl.FlightKeys

`do_flight` called for many keys at a time. `inflight_` finds a `Call` by its key, and from then on a
thread goes by the `Call` alone; so it has to be shown that a thread is told the result of a loader
for its own key. `Apart` has the keys of the threads and of the `Call`s beside the state.
-/

namespace UrlShortener
namespace SingleFlight

open Threads

/-- Has its key still to look up. -/
def Pc.asks : Pc → Option Bytes
  | .enter key | .lookup key => some key
  | _ => none

/-- The key of a new call. -/
def Label.asked : Label → List Bytes
  | .call key => [key]
  | _ => []

namespace State

variable {cfg : Config} {s s' : State} {l : Label} {keys owner : List Bytes}

/-- With the keys of the threads and of the `Call`s: who refers to a `Call` has called for its
key. -/
structure Apart (keys owner : List Bytes) (s : State) : Prop where
  threads : keys.length = s.threads.length
  calls : owner.length = s.calls.length
  asks : ∀ t key, At Pc.asks s.threads t key → keys[t]? = some key
  registered : ∀ key c, s.inflight.lookup key = some c → owner[c]? = some key
  refers : ∀ t c, At Pc.refers s.threads t c → ∃ key, keys[t]? = some key ∧ owner[c]? = some key

theorem apart_init : Apart [] [] {} where
  threads := rfl
  calls := rfl
  asks t key h := by
    obtain ⟨p, hp, -⟩ := h
    cases hp
  registered key c h := by cases h
  refers t c h := by
    obtain ⟨p, hp, -⟩ := h
    cases hp

/-- A step that makes no `Call`, registers nothing and lets nobody refer to a new one. -/
theorem Apart.keep {s₁ : State} (h : Apart keys owner s)
    (hthreads : s₁.threads.length = s.threads.length) (hcalls : s₁.calls.length = s.calls.length)
    (hasks : ∀ t key, At Pc.asks s₁.threads t key → At Pc.asks s.threads t key)
    (hin : ∀ key c, s₁.inflight.lookup key = some c → s.inflight.lookup key = some c)
    (hrefers : ∀ t c, At Pc.refers s₁.threads t c → At Pc.refers s.threads t c) :
    Apart keys owner s₁ where
  threads := h.threads.trans hthreads.symm
  calls := h.calls.trans hcalls.symm
  asks t key ha := h.asks t key (hasks t key ha)
  registered key c hc := h.registered key c (hin key c hc)
  refers t c ha := h.refers t c (hrefers t c ha)

/-- The same for a step of one thread. -/
theorem Apart.go {s₁ : State} {t : Nat} {p q : Pc} (h : Apart keys owner s)
    (ht : s.threads[t]? = some p) (hthreads : s₁.threads = s.threads.set t q)
    (hcalls : s₁.calls.length = s.calls.length)
    (hin : ∀ key c, s₁.inflight.lookup key = some c → s.inflight.lookup key = some c)
    (hasks : ∀ key, q.asks = some key → p.asks = some key)
    (hrefers : ∀ c, q.refers = some c → p.refers = some c) : Apart keys owner s₁ := by
  refine h.keep (by rw [hthreads, List.length_set]) hcalls ?_ hin ?_
  · intro u key ha
    rw [hthreads] at ha
    rcases at_of_at_set ht ha with ha | ⟨rfl, hq⟩
    · exact ha
    · exact ⟨p, ht, hasks key hq⟩
  · intro u c ha
    rw [hthreads] at ha
    rcases at_of_at_set ht ha with ha | ⟨rfl, hq⟩
    · exact ha
    · exact ⟨p, ht, hrefers c hq⟩

theorem Apart.call (h : Apart keys owner s) (key : Bytes) :
    Apart (keys ++ [key]) owner { s with threads := s.threads ++ [.enter key] } where
  threads := by simp [h.threads]
  calls := h.calls
  asks t key' ha := by
    rcases at_append.mp ha with ha | ⟨rfl, hq⟩
    · have hkey := h.asks t key' ha
      rw [List.getElem?_append_left (lt_of_getElem? hkey)]
      exact hkey
    · cases hq
      rw [← h.threads]
      exact List.getElem?_concat_length
  registered := h.registered
  refers t c ha := by
    obtain ⟨key', hkey, hc⟩ := h.refers t c ((at_append_of_none rfl).mp ha)
    exact ⟨key', by rw [List.getElem?_append_left (lt_of_getElem? hkey)]; exact hkey, hc⟩

/-- A thread finds a `Call` under its key. -/
theorem Apart.join {t c : Nat} {key : Bytes} {call' : Call} (h : Apart keys owner s)
    (ht : s.threads[t]? = some (.lookup key)) (found : s.inflight.lookup key = some c) :
    Apart keys owner (({ s with mutex := none }.setCall c call').go t (.joining c)) where
  threads := by simp [State.go, setCall, h.threads]
  calls := by simp [State.go, setCall, h.calls]
  asks u key' ha := by
    rcases at_of_at_set ht ha with ha | ⟨-, hq⟩
    · exact h.asks u key' ha
    · cases hq
  registered := h.registered
  refers u d ha := by
    rcases at_of_at_set ht ha with ha | ⟨rfl, hq⟩
    · exact h.refers u d ha
    · cases hq
      exact ⟨key, h.asks u key ⟨_, ht, rfl⟩, h.registered key c found⟩

/-- A thread makes a `Call` for its key. -/
theorem Apart.lead {t : Nat} {key : Bytes} (h : Apart keys owner s)
    (ht : s.threads[t]? = some (.lookup key)) :
    Apart keys (owner ++ [key]) ((s.register key).go t (.loading key s.calls.length)) := by
  have hold : ∀ {c : Nat} {key' : Bytes}, owner[c]? = some key' →
      (owner ++ [key])[c]? = some key' := by
    intro c key' hc
    rw [List.getElem?_append_left (lt_of_getElem? hc)]
    exact hc
  have hnew : (owner ++ [key])[s.calls.length]? = some key := by
    rw [← h.calls]
    exact List.getElem?_concat_length
  constructor
  · simp [State.go, State.register, h.threads]
  · simp [State.go, State.register, h.calls]
  · intro u key' ha
    rcases at_of_at_set ht ha with ha | ⟨-, hq⟩
    · exact h.asks u key' ha
    · cases hq
  · intro key' c hc
    by_cases hkey : key' = key
    · subst hkey
      rw [show ((s.register key').go t (.loading key' s.calls.length)).inflight.lookup key' =
        some s.calls.length from AList.lookup_insert _] at hc
      cases hc
      exact hnew
    · rw [show ((s.register key).go t (.loading key s.calls.length)).inflight.lookup key' =
        s.inflight.lookup key' from AList.lookup_insert_ne hkey] at hc
      exact hold (h.registered key' c hc)
  · intro u c ha
    rcases at_of_at_set ht ha with ha | ⟨rfl, hq⟩
    · obtain ⟨key', hkey, hc⟩ := h.refers u c ha
      exact ⟨key', hkey, hold hc⟩
    · cases hq
      exact ⟨key, h.asks u key ⟨_, ht, rfl⟩, hnew⟩

/-- **Flights of different keys stay apart.** -/
theorem Apart.step (h : Apart keys owner s) (hs : Step cfg s l s') :
    ∃ new, Apart (keys ++ l.asked) (owner ++ new) s' := by
  -- Only a call and a new `Call` add to the two lists.
  have same : l.asked = [] → Apart keys owner s' →
      ∃ new, Apart (keys ++ l.asked) (owner ++ new) s' := by
    intro hl h'
    exact ⟨[], by rw [hl, List.append_nil, List.append_nil]; exact h'⟩
  have quiet : ∀ {u : Nat} {p q : Pc}, l.asked = [] → s.threads[u]? = some p →
      s'.threads = s.threads.set u q → s'.calls.length = s.calls.length →
      s'.inflight = s.inflight → (∀ key, q.asks = some key → p.asks = some key) →
      (∀ c, q.refers = some c → p.refers = some c) →
      ∃ new, Apart (keys ++ l.asked) (owner ++ new) s' := by
    intro u p q hl hu hthreads hcalls hin hasks hrefers
    exact same hl (h.go hu hthreads hcalls (by rw [hin]; exact fun _ _ hc => hc) hasks hrefers)
  have hset : ∀ {c : Nat} {call : Call}, (s.calls.set c call).length = s.calls.length :=
    List.length_set
  cases hs with
  | call key => exact ⟨[], by rw [List.append_nil]; exact h.call key⟩
  | join ht found hc => exact same rfl (h.join ht found)
  | @lead t key ht =>
    refine ⟨[key], ?_⟩
    simp only [Label.asked, List.append_nil]
    exact h.lead ht
  | enter ht => exact quiet rfl ht rfl rfl rfl (fun _ hk => hk) (by simp [Pc.refers])
  | full ht => exact quiet rfl ht rfl rfl rfl (by simp [Pc.asks]) (by simp [Pc.refers])
  | refuse ht => exact quiet rfl ht rfl rfl rfl (by simp [Pc.asks]) (by simp [Pc.refers])
  | lock ht => exact quiet rfl ht rfl hset rfl (by simp [Pc.asks]) (fun _ hc => hc)
  | share ht => exact quiet rfl ht rfl rfl rfl (by simp [Pc.asks]) (fun _ hc => hc)
  | sleep ht => exact quiet rfl ht rfl hset rfl (by simp [Pc.asks]) (fun _ hc => hc)
  | leave ht => exact quiet rfl ht rfl rfl rfl (by simp [Pc.asks]) (fun _ hc => hc)
  | drop ht => exact quiet rfl ht rfl hset rfl (by simp [Pc.asks]) (fun _ hc => hc)
  | answer ht => exact quiet rfl ht rfl hset rfl (by simp [Pc.asks]) (by simp [Pc.refers])
  | load out ht => exact quiet rfl ht rfl rfl rfl (by simp [Pc.asks]) (fun _ hc => hc)
  | hold ht => exact quiet rfl ht rfl hset rfl (by simp [Pc.asks]) (fun _ hc => hc)
  | publish ht => exact quiet rfl ht rfl hset rfl (by simp [Pc.asks]) (fun _ hc => hc)
  | claim ht => exact quiet rfl ht rfl rfl rfl (by simp [Pc.asks]) (fun _ hc => hc)
  | wake ht => exact quiet rfl ht rfl rfl rfl (by simp [Pc.asks]) (fun _ hc => hc)
  | @notify t c key r ht =>
    have hmap : ∀ {X : Type} {f : Pc → Option X}, (∀ c, f (.joining c) = f (.sleeping c)) →
        f (.notified key c r) = f (.published key c r) → ∀ (u : Nat) (x : X),
        At f ((s.threads.map (Pc.notify c)).set t (.notified key c r)) u x → At f s.threads u x := by
      intro X f hf hq u x ha
      exact (at_map (Pc.notify_role hf c)).mp ((at_set_of_eq (notified_at ht c) hq).mp ha)
    exact same rfl (h.keep (by simp [State.go]) rfl (hmap (fun _ => rfl) rfl) (fun _ _ hc => hc)
      (hmap (fun _ => rfl) rfl))
  | @remove t c key r ht =>
    refine same rfl (h.go ht rfl rfl ?_ (by simp [Pc.asks]) (by simp [Pc.refers]))
    intro key' d hd
    simp only [State.go, State.remove] at hd
    split at hd
    · by_cases hkey : key' = key
      · rw [hkey, AList.lookup_erase] at hd
        cases hd
      · rw [AList.lookup_erase_ne hkey] at hd
        exact hd
    · exact hd

end State
end SingleFlight

end UrlShortener
