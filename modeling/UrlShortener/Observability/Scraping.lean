import UrlShortener.Base.Scan
import UrlShortener.Observability.Scrape

/-!
# UrlShortener.Observability.Scraping

`render_prometheus` while calls go on. It takes the shards' mutexes one after another, so between two
shards any thread may call `observe`, and several scrapes may be on their way.

`scrape_regular`: a scrape reports all calls that were over when it began and some of those that came
while it was reading; for these its series agree with each other. `scrape_monotone`: no counter of a
later scrape is behind.
-/

namespace UrlShortener
namespace Observability

open Exposition (HasLine)
open Sharded (Act Reach Scan Traffic)

/-- The registry with the scrapes that are on their way. -/
abbrev Scraping := Traffic Shard Observation kShardCount

namespace Scraping

/-- A call of a thread of shard `i`, the start of `render_prometheus`, or one round of its loop. -/
def step (s : Scraping) (a : Act Observation kShardCount) : Option Scraping :=
  Traffic.step Shard.observe s a

def afterReset (r : MetricsRegistry) : Scraping := { shards := r.resetForTest }

/-- The text, when the loop is over. -/
def rendered (c : Scan Shard Observation kShardCount) : Option Bytes :=
  if c.next = kShardCount then some (renderSums c.sum) else none

/-- The calls that a scrape has counted. -/
def calls (c : Scan Shard Observation kShardCount) : List Observation := c.counted.map Prod.snd

theorem reach (r : MetricsRegistry) {acts : List (Act Observation kShardCount)} {s : Scraping}
    (hr : Machine.run step (afterReset r) acts = some s) : Reach Shard.observe s := by
  have hstart : Reach Shard.observe (afterReset r) := Reach.start
  exact Machine.run_preserves step (fun _ _ _ h hs => h.step observe_eq hs) hstart hr

/-- The calls add up to what the scrape has. -/
theorem sum_eq {c : Scan Shard Observation kShardCount} {s : Scraping} (h : Reach Shard.observe s)
    (hc : c ∈ s.scans) (hdone : c.next = kShardCount) : c.sum = tally (calls c) := by
  rw [((h.fair c hc).sum_eq hdone).1, tally, calls, List.map_map]
  rfl

theorem rendered_eq {c : Scan Shard Observation kShardCount} {text : Bytes}
    (h : rendered c = some text) : c.next = kShardCount ∧ text = renderSums c.sum := by
  unfold rendered at h
  split at h
  · rename_i hdone
    exact ⟨hdone, (Option.some.inj h).symm⟩
  · cases h

/-- **A scrape among calls.** Its text is read back as samples that count the calls from before it
began and some of those that came while it was reading. -/
theorem scrape_regular (r : MetricsRegistry) (acts : List (Act Observation kShardCount))
    (s : Scraping) (hr : Machine.run step (afterReset r) acts = some s)
    (hlen : s.history.length < 2 ^ 64) (c : Scan Shard Observation kShardCount)
    (hc : c ∈ s.scans) (text : Bytes) (htext : rendered c = some text) :
    calls c = c.before.map Prod.snd ++ c.seen.map Prod.snd ∧ c.seen.Sublist c.heard ∧
      (c.before ++ c.heard <+: s.history) ∧
      ∃ samples, Exposition.read text = some samples ∧ Scraped (calls c) samples ∧
        ∀ s ∈ samples, (∀ l ∈ s.labels, LF ∉ l.2) → HasLine text (s.line escapeLabelValue) := by
  have hreach := reach r hr
  have hfair := hreach.fair c hc
  obtain ⟨hdone, heq⟩ := rendered_eq htext
  have hcalls : (calls c).length < 2 ^ 64 := by
    rw [calls, List.length_map]
    exact Nat.lt_of_le_of_lt hfair.counted_sublist.length_le hlen
  refine ⟨List.map_append, (hfair.sum_eq hdone).2, hfair.follows, ?_⟩
  rw [heq, sum_eq hreach hc hdone]
  exact ⟨_, read_render _, scraped hcalls, fun s hs hvalues => line_render hs hvalues⟩

/-- Two calls around the start of a scrape, and one behind its back, in the first shard. -/
def threeCalls : List (Act Observation kShardCount) :=
  [.event ⟨3, Nat.le_of_ble_eq_true rfl⟩ (.kafkaEnqueue true), .enter,
    .event ⟨5, Nat.le_of_ble_eq_true rfl⟩ (.kafkaEnqueue true), .visit 0,
    .event ⟨0, Nat.le_of_ble_eq_true rfl⟩ (.kafkaEnqueue true)] ++ List.replicate 15 (.visit 0)

theorem scrape_regular_three : ∃ text samples, Exposition.read text = some samples ∧
    reported samples "shorturl_kafka_enqueue_total" [(ascii "result", ascii "accepted")] =
      [ascii "2"] := by
  have hrun : (Machine.run step (afterReset fun _ => {}) threeCalls).map (fun s =>
      (s.history.length, s.scans.map fun c =>
        (c.next, (calls c).countP (Observation.isEnqueue true)))) = some (3, [(16, 2)]) := by
    decide +kernel
  obtain ⟨s, hr, hpair⟩ := Option.map_eq_some_iff.mp hrun
  obtain ⟨hlen, hscans⟩ := Prod.mk.inj hpair
  obtain ⟨c, hc, hdone⟩ := List.map_eq_singleton_iff.mp hscans
  obtain ⟨hnext, hcount⟩ := Prod.mk.inj hdone
  obtain ⟨-, -, -, samples, hread, hscraped, -⟩ := scrape_regular (fun _ => {}) threeCalls s hr
    (by rw [hlen]; decide) c (by rw [hc]; exact List.mem_singleton_self c) _ (if_pos hnext)
  refine ⟨_, samples, hread, ?_⟩
  have hplain := hscraped.plain ("shorturl_kafka_enqueue_total", "accepted", Observation.isEnqueue true)
    (List.mem_of_getElem? (show plainCounters[2]? = some _ from rfl))
  rw [hplain, hcount]
  decide +kernel

/-- **Counters do not go back.** A scrape that begins when another one is over has counted every call
that the other one has. -/
theorem scrape_monotone (r : MetricsRegistry) (acts later : List (Act Observation kShardCount))
    (s₁ s₂ : Scraping) (h₁ : Machine.run step (afterReset r) acts = some s₁)
    (h₂ : Machine.run step s₁ later = some s₂) (hlen : s₂.history.length < 2 ^ 64)
    (c d : Scan Shard Observation kShardCount) (t : Nat) (hc : c ∈ s₁.scans)
    (ht : s₁.scans.length ≤ t) (hd : s₂.scans[t]? = some d) (first second : Bytes)
    (hfirst : rendered c = some first) (hsecond : rendered d = some second) :
    ∃ ss₁ ss₂, Exposition.read first = some ss₁ ∧ Exposition.read second = some ss₂ ∧
      Scraped (calls c) ss₁ ∧ Scraped (calls d) ss₂ ∧ (calls c).Sublist (calls d) ∧
      ∀ p : Observation → Bool, (calls c).countP p ≤ (calls d).countP p := by
  have hreach := reach r h₁
  have hsub : (calls c).Sublist (calls d) :=
    (Sharded.Since.counted hreach hc h₂ ht hd).map Prod.snd
  have hreach₂ : Reach Shard.observe s₂ :=
    Machine.run_preserves step (fun _ _ _ h hs => h.step observe_eq hs) hreach h₂
  have hmem : d ∈ s₂.scans := List.mem_of_getElem? hd
  have hcalls : (calls d).length < 2 ^ 64 := by
    rw [calls, List.length_map]
    exact Nat.lt_of_le_of_lt (hreach₂.fair d hmem).counted_sublist.length_le hlen
  obtain ⟨hdone, heq⟩ := rendered_eq hfirst
  obtain ⟨hdone', heq'⟩ := rendered_eq hsecond
  rw [heq, heq', sum_eq hreach hc hdone, sum_eq hreach₂ hmem hdone']
  exact ⟨_, _, read_render _, read_render _,
    scraped (Nat.lt_of_le_of_lt hsub.length_le hcalls), scraped hcalls, hsub,
    fun p => hsub.countP_le⟩

/-- A call between two scrapes. -/
theorem scrape_monotone_two : ∃ first second ss₁ ss₂,
    Exposition.read first = some ss₁ ∧ Exposition.read second = some ss₂ ∧
    reported ss₁ "shorturl_log_enqueue_total" [(ascii "result", ascii "dropped")] = [ascii "0"] ∧
    reported ss₂ "shorturl_log_enqueue_total" [(ascii "result", ascii "dropped")] =
      [ascii "1"] := by
  have hrun : (Machine.run step (afterReset fun _ => {}) (.enter :: List.replicate 16 (.visit 0) ++
      [.event ⟨7, by decide⟩ (.logEnqueue false)])).bind (fun s₁ =>
        (Machine.run step s₁ (.enter :: List.replicate 16 (.visit 1))).map fun s₂ =>
          (s₂.history.length,
            s₁.scans.map fun c => (c.next, (calls c).countP (Observation.isLogEnqueue false)),
            s₂.scans.map fun c => (c.next, (calls c).countP (Observation.isLogEnqueue false)))) =
      some (1, [(16, 0)], [(16, 0), (16, 1)]) := by
    decide +kernel
  obtain ⟨s₁, h₁, hrest⟩ := Option.bind_eq_some_iff.mp hrun
  obtain ⟨s₂, h₂, heq⟩ := Option.map_eq_some_iff.mp hrest
  obtain ⟨hlen, hpair⟩ := Prod.mk.inj heq
  obtain ⟨hscans₁, hscans₂⟩ := Prod.mk.inj hpair
  obtain ⟨c, hc, hdone⟩ := List.map_eq_singleton_iff.mp hscans₁
  obtain ⟨hnext, hcount⟩ := Prod.mk.inj hdone
  have hd : ∃ d, s₂.scans[1]? = some d ∧
      (d.next, (calls d).countP (Observation.isLogEnqueue false)) = (16, 1) := by
    rw [← Option.map_eq_some_iff, ← List.getElem?_map, hscans₂]
    rfl
  obtain ⟨d, hd, hdone'⟩ := hd
  obtain ⟨hnext', hcount'⟩ := Prod.mk.inj hdone'
  obtain ⟨ss₁, ss₂, hread₁, hread₂, hscraped₁, hscraped₂, -⟩ := scrape_monotone (fun _ => {}) _ _
    s₁ s₂ h₁ h₂ (by rw [hlen]; decide) c d 1 (by rw [hc]; exact List.mem_singleton_self c)
    (by rw [hc]; exact Nat.le_refl 1) hd _ _ (if_pos hnext) (if_pos hnext')
  have hmem : ("shorturl_log_enqueue_total", "dropped", Observation.isLogEnqueue false) ∈
      plainCounters := List.mem_of_getElem? (show plainCounters[9]? = some _ from rfl)
  refine ⟨_, _, ss₁, ss₂, hread₁, hread₂, ?_, ?_⟩
  · rw [hscraped₁.plain _ hmem, hcount]
    decide +kernel
  · rw [hscraped₂.plain _ hmem, hcount']
    decide +kernel

end Scraping

end Observability
end UrlShortener
