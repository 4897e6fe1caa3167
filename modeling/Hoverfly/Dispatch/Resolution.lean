import Mathlib.Data.List.Perm.Basic
import Hoverfly.Dispatch.Dispatcher

/-! Every work item is in one place: in the queue, in flight, or reported. -/
namespace Hoverfly.Dispatch
open Lib Push

/-- Where the work items are; `hand` are flights taken out of the window. -/
structure Parts (work : List StampedChunk) (hand : List Flight) (d : Dispatcher) : Prop where
  items : (d.iter.map (·.2) ++ ((hand ++ d.inflight).map (·.item) ++ d.calls.map (·.item))).Perm
    (List.range work.length)
  queued : ∀ x ∈ d.iter, work[x.2]? = some x.1 ∧ x.2 ∉ d.dispatched
  flying : ∀ f ∈ hand ++ d.inflight, work[f.item]? = some f.chunk ∧ f.attempts < maxChunkRetries ∧
    d.dispatched.count f.item = f.attempts + 1
  called : ∀ c ∈ d.calls, ∃ chunk, work[c.item]? = some chunk ∧ c.addr = chunk.addr
  budget : ∀ i, d.dispatched.count i ≤ maxChunkRetries

namespace Parts

variable {work : List StampedChunk} {hand : List Flight} {d : Dispatcher} {f : Flight}

theorem take (h : Parts work [] d) {k : Nat} (found : d.inflight[k]? = some f) :
    Parts work [f] { d with inflight := d.inflight.eraseIdx k } := by
  obtain ⟨inside, here⟩ := List.getElem?_eq_some_iff.mp found
  have moved : (f :: d.inflight.eraseIdx k).Perm d.inflight := here ▸ List.getElem_cons_eraseIdx_perm inside
  refine { h with items := ?_, flying := fun g member => ?_ }
  · exact (((moved.map _).append_right _).append_left _).trans h.items
  · exact h.flying g (moved.mem_iff.mp member)

theorem report (h : Parts work [f] d) (result : Except String PushInfo) :
    Parts work [] (d.report f result) := by
  refine { h with items := ?_, flying := fun g member => ?_, called := fun c member => ?_ }
  · refine (List.Perm.append_left _ ?_).trans h.items
    simp only [Dispatcher.report, List.map_append, List.map_cons, List.map_nil, List.nil_append, List.cons_append]
    rw [← List.append_assoc]
    exact List.perm_append_singleton ..
  · exact h.flying g (List.mem_cons_of_mem _ member)
  · rcases List.mem_append.mp member with before | new
    · exact h.called c before
    · rw [List.mem_singleton.mp new]
      exact ⟨f.chunk, (h.flying f (List.mem_cons_self ..)).1, rfl⟩

theorem launched {item attempts : Nat} {chunk : StampedChunk}
    (items : (d.iter.map (·.2) ++ (item :: (d.inflight.map (·.item) ++ d.calls.map (·.item)))).Perm
      (List.range work.length))
    (queued : ∀ x ∈ d.iter, work[x.2]? = some x.1 ∧ x.2 ∉ d.dispatched)
    (flying : ∀ f ∈ d.inflight, work[f.item]? = some f.chunk ∧ f.attempts < maxChunkRetries ∧
      d.dispatched.count f.item = f.attempts + 1)
    (called : ∀ c ∈ d.calls, ∃ chunk, work[c.item]? = some chunk ∧ c.addr = chunk.addr)
    (budget : ∀ i, d.dispatched.count i ≤ maxChunkRetries)
    (here : work[item]? = some chunk) (room : attempts < maxChunkRetries)
    (count : d.dispatched.count item = attempts) : Parts work [] (d.launch item chunk attempts) := by
  have apart := items.nodup_iff.mpr List.nodup_range
  obtain ⟨absent, _⟩ := List.nodup_cons.mp (List.nodup_middle.mp apart)
  simp only [List.mem_append, not_or] at absent
  refine ⟨?_, fun x member => ?_, fun f member => ?_, called, fun i => ?_⟩
  · refine List.Perm.trans (List.Perm.append_left _ ?_) items
    simp only [Dispatcher.launch, List.nil_append, List.map_append, List.map_cons, List.map_nil, List.append_assoc,
      List.cons_append]
    exact List.perm_middle
  · obtain ⟨at_, unseen⟩ := queued x member
    refine ⟨at_, ?_⟩
    simp only [Dispatcher.launch, List.mem_append, List.mem_singleton, not_or]
    refine ⟨unseen, fun same => absent.1 ?_⟩
    rw [← same]
    exact List.mem_map_of_mem member
  · simp only [Dispatcher.launch, List.nil_append, List.mem_append, List.mem_singleton] at member
    rcases member with before | rfl
    · obtain ⟨at_, room, counted⟩ := flying f before
      have other : item ≠ f.item := fun same => absent.2.1 (same ▸ List.mem_map_of_mem before)
      exact ⟨at_, room, by simp [Dispatcher.launch, List.count_append, counted, other]⟩
    · exact ⟨here, room, by simp [Dispatcher.launch, List.count_append, count]⟩
  · have before := budget i
    simp only [Dispatcher.launch, List.count_append, List.count_singleton]
    split
    · rename_i same
      rw [← eq_of_beq same, count]
      exact room
    · exact before

theorem launch (h : Parts work [] d) {chunk : StampedChunk} {item : Nat} {rest : List (StampedChunk × Nat)}
    (first : d.iter = (chunk, item) :: rest) : Parts work [] ({ d with iter := rest }.launch item chunk 0) := by
  obtain ⟨here, fresh⟩ := h.queued (chunk, item) (first ▸ List.mem_cons_self ..)
  refine launched ?_ (fun x member => h.queued x (first ▸ List.mem_cons_of_mem _ member)) h.flying h.called h.budget
    here (by decide) (List.count_eq_zero.mpr fresh)
  refine List.perm_middle.trans (List.Perm.trans ?_ h.items)
  rw [first]
  exact .refl _

theorem relaunch (h : Parts work [f] d) (left : f.attempts + 1 < maxChunkRetries) :
    Parts work [] (d.launch f.item f.chunk (f.attempts + 1)) := by
  obtain ⟨here, _, count⟩ := h.flying f (List.mem_cons_self ..)
  exact launched h.items h.queued (fun g member => h.flying g (List.mem_cons_of_mem _ member)) h.called h.budget here
    left count

theorem refill (h : Parts work [] d) : Parts work [] d.refill := by
  unfold Dispatcher.refill
  split
  · exact { h with }
  · rename_i chunk item rest first
    exact h.launch first

theorem fill (n : Nat) (h : Parts work [] d) : Parts work [] (d.fill n) := by
  induction n generalizing d with
  | zero => exact h
  | succ n ih =>
    unfold Dispatcher.fill
    split
    · exact h
    · rename_i chunk item rest first
      exact ih (h.launch first)

end Parts

structure Fine (d : Dispatcher) : Prop where
  ok : ∀ c ∈ d.calls, c.result.isOk = true
  tally : d.pushed = d.calls.length

inductive Phase (d : Dispatcher) : Prop where
  | running (open_ : d.result = none) (busy : d.inflight ≠ []) (drained : d.moreChunks = false → d.iter = [])
      (fine : Fine d)
  | done (ended : d.result = some (.ok ())) (drained : d.iter = []) (idle : d.inflight = []) (fine : Fine d)
  | aborted (e : ClientError) (before : List ChunkDone) (last : ChunkDone) (ended : d.result = some (.error e))
      (calls : d.calls = before ++ [last]) (failed : last.result = .error e.message)
      (ok : ∀ c ∈ before, c.result.isOk = true)

theorem Phase.ok {d : Dispatcher} (phase : Phase d) (ended : d.result = some (.ok ())) :
    d.iter = [] ∧ d.inflight = [] ∧ Fine d := by
  cases phase with
  | running open_ =>
    rw [open_] at ended
    cases ended
  | done _ drained idle fine => exact ⟨drained, idle, fine⟩
  | aborted e before last failed =>
    rw [failed] at ended
    cases ended

theorem Phase.error {d : Dispatcher} {e : ClientError} (phase : Phase d) (ended : d.result = some (.error e)) :
    ∃ before last, d.calls = before ++ [last] ∧ last.result = .error e.message ∧
      ∀ c ∈ before, c.result.isOk = true := by
  cases phase with
  | running open_ =>
    rw [open_] at ended
    cases ended
  | done ok =>
    rw [ok] at ended
    cases ended
  | aborted e' before last failed calls carried ok =>
    rw [failed] at ended
    cases ended
    exact ⟨before, last, calls, carried, ok⟩

namespace Dispatcher

def left (d : Dispatcher) : Nat :=
  maxChunkRetries * d.iter.length + (d.inflight.map fun f => maxChunkRetries - f.attempts).sum

theorem left_launch (d : Dispatcher) (item : Nat) (chunk : StampedChunk) (attempts : Nat) :
    (d.launch item chunk attempts).left = d.left + (maxChunkRetries - attempts) := by
  simp only [left, launch, List.map_append, List.map_cons, List.map_nil, List.sum_append, List.sum_cons, List.sum_nil]
  omega

theorem left_refill (d : Dispatcher) : d.refill.left = d.left := by
  unfold refill
  split
  · rfl
  · rename_i chunk item rest first
    rw [left_launch]
    simp only [left, first, List.length_cons, Nat.mul_add_one]
    omega

theorem left_take {d : Dispatcher} {k : Nat} {f : Flight} (found : d.inflight[k]? = some f) :
    d.left = left { d with inflight := d.inflight.eraseIdx k } + (maxChunkRetries - f.attempts) := by
  obtain ⟨inside, here⟩ := List.getElem?_eq_some_iff.mp found
  have moved : (f :: d.inflight.eraseIdx k).Perm d.inflight := here ▸ List.getElem_cons_eraseIdx_perm inside
  have sum := (moved.map fun f => maxChunkRetries - f.attempts).sum_nat
  simp only [List.map_cons, List.sum_cons] at sum
  simp only [left]
  omega

end Dispatcher

structure Stepped (work : List StampedChunk) (bound : Nat) (d : Dispatcher) : Prop where
  parts : Parts work [] d
  phase : Phase d
  fewer : d.result = none → d.left < bound

namespace Stepped

variable {work : List StampedChunk} {d : Dispatcher} {bound : Nat}

theorem refill (parts : Parts work [] d) (open_ : d.result = none) (drained : d.moreChunks = false → d.iter = [])
    (fine : Fine d) (fewer : d.left < bound) : Stepped work bound d.refill.close := by
  have kept := parts.refill
  have less := d.left_refill
  cases first : d.iter with
  | cons x rest =>
    have next : d.refill = { d with iter := rest }.launch x.2 x.1 0 := by
      unfold Dispatcher.refill
      rw [first]
    have running : d.refill.close = d.refill := by
      unfold Dispatcher.close
      rw [if_neg]
      rintro ⟨_, _, idle⟩
      rw [next] at idle
      simp [Dispatcher.launch] at idle
    rw [running]
    refine ⟨kept, .running ?_ ?_ ?_ ?_, fun _ => by omega⟩
    · rw [next]
      exact open_
    · rw [next]
      simp [Dispatcher.launch]
    · intro beyond
      rw [next] at beyond
      have none_ := drained beyond
      rw [first] at none_
      cases none_
    · rw [next]
      exact ⟨fine.ok, fine.tally⟩
  | nil =>
    have next : d.refill = { d with moreChunks := false } := by
      unfold Dispatcher.refill
      rw [first]
    rw [next] at kept less ⊢
    unfold Dispatcher.close
    split
    · rename_i beyond
      exact ⟨{ kept with }, .done rfl first beyond.2.2 ⟨fine.ok, fine.tally⟩, nofun⟩
    · rename_i busy
      refine ⟨kept, .running open_ (fun idle => busy ⟨open_, rfl, idle⟩) (fun _ => first) ⟨fine.ok, fine.tally⟩, ?_⟩
      exact fun _ => by omega

variable {f : Flight}

theorem landed (parts : Parts work [f] d) (open_ : d.result = none)
    (drained : d.moreChunks = false → d.iter = []) (fine : Fine d) {pushed : Nat} (info : PushInfo)
    (counted : pushed = d.pushed + 1) :
    Stepped work (d.left + (maxChunkRetries - f.attempts)) ({ d with pushed }.report f (.ok info)).refill.close := by
  have room := (parts.flying f (List.mem_cons_self ..)).2.1
  have held : Parts work [f] { d with pushed } := { parts with }
  refine refill (held.report (.ok info)) open_ drained ⟨fun c member => ?_, ?_⟩ ?_
  · rcases List.mem_append.mp member with before | new
    · exact fine.ok c before
    · rw [List.mem_singleton.mp new]
      rfl
  · simp [Dispatcher.report, counted, fine.tally]
  · exact Nat.lt_add_of_pos_right (Nat.sub_pos_of_lt room)

theorem abort (parts : Parts work [f] d) (fine : ∀ c ∈ d.calls, c.result.isOk = true)
    (e : ClientError) : Stepped work bound (d.abort f e).close := by
  have same : (d.abort f e).close = d.abort f e := by
    unfold Dispatcher.close
    rw [if_neg]
    rintro ⟨no, _⟩
    cases no
  rw [same]
  have reported := parts.report (.error e.message)
  exact ⟨{ reported with }, .aborted e d.calls _ rfl rfl rfl fine, nofun⟩

theorem relaunch (parts : Parts work [f] d) (open_ : d.result = none)
    (drained : d.moreChunks = false → d.iter = []) (fine : Fine d) (again : f.attempts + 1 < maxChunkRetries)
    (fewer : d.left + (maxChunkRetries - f.attempts) ≤ bound) :
    Stepped work bound (d.launch f.item f.chunk (f.attempts + 1)).close := by
  have busy : (d.launch f.item f.chunk (f.attempts + 1)).inflight ≠ [] := by simp [Dispatcher.launch]
  have running : (d.launch f.item f.chunk (f.attempts + 1)).close = d.launch f.item f.chunk (f.attempts + 1) := by
    unfold Dispatcher.close
    rw [if_neg]
    exact fun beyond => busy beyond.2.2
  rw [running]
  refine ⟨parts.relaunch again, .running open_ busy drained ⟨fine.ok, fine.tally⟩, fun _ => ?_⟩
  rw [Dispatcher.left_launch]
  omega

end Stepped

namespace Dispatcher

variable {work : List StampedChunk} {d : Dispatcher} (maxRetries : Nat)

theorem finish_stepped {f : Flight} (world : World) (parts : Parts work [f] d)
    (open_ : d.result = none) (drained : d.moreChunks = false → d.iter = []) (fine : Fine d) :
    Stepped work (d.left + (maxChunkRetries - f.attempts)) (d.finish f (world.dispatch maxRetries d.pushed)).close := by
  have counted := world.dispatch_pushed maxRetries d.pushed
  generalize world.dispatch maxRetries d.pushed = came at counted ⊢
  obtain ⟨pushed, result⟩ := came
  cases result with
  | ok info => exact .landed parts open_ drained fine info counted
  | error e =>
    have same : pushed = d.pushed := counted
    subst same
    cases e with
    | batchNotFound reason => exact .abort parts fine.ok _
    | noPeers reason =>
      unfold finish
      dsimp only
      split
      · rename_i again
        exact .relaunch parts open_ drained fine again (Nat.le_refl _)
      · exact .abort parts fine.ok _
    | shallowOnly =>
      unfold finish
      dsimp only
      split
      · rename_i again
        exact .relaunch parts open_ drained fine again (Nat.le_refl _)
      · exact .landed parts open_ drained fine _ rfl

theorem step_stepped (parts : Parts work [] d) (phase : Phase d) (pick : Nat) (world : World) :
    Stepped work d.left (d.step maxRetries (.push pick world)) := by
  cases phase with
  | done ended drained idle fine =>
    have same : d.step maxRetries (.push pick world) = d := by simp [step, ended]
    rw [same]
    exact ⟨parts, .done ended drained idle fine, fun no => by rw [ended] at no; cases no⟩
  | aborted e before last ended calls failed ok =>
    have same : d.step maxRetries (.push pick world) = d := by simp [step, ended]
    rw [same]
    exact ⟨parts, .aborted e before last ended calls failed ok, fun no => by rw [ended] at no; cases no⟩
  | running open_ busy drained fine =>
    have inside : pick % d.inflight.length < d.inflight.length := Nat.mod_lt _ (List.length_pos_iff.mpr busy)
    obtain ⟨f, found⟩ : ∃ f, d.inflight[pick % d.inflight.length]? = some f := ⟨_, List.getElem?_eq_getElem inside⟩
    have taken := parts.take found
    have next : d.step maxRetries (.push pick world) =
        ({ d with inflight := d.inflight.eraseIdx (pick % d.inflight.length) }.finish f
          (world.dispatch maxRetries d.pushed)).close := by
      unfold step
      simp only [open_, Option.isSome_none, Bool.false_eq_true, if_false, found]
    have stepped := finish_stepped maxRetries world taken open_ drained ⟨fine.ok, fine.tally⟩
    rw [← left_take found, ← next] at stepped
    exact stepped

theorem step_kept (d : Dispatcher) (event : Event) (kept : Parts work [] d ∧ Phase d) :
    Parts work [] (d.step maxRetries event) ∧ Phase (d.step maxRetries event) := by
  cases event with
  | push pick world =>
    have stepped := step_stepped maxRetries kept.1 kept.2 pick world
    exact ⟨stepped.parts, stepped.phase⟩
  | dial => exact kept
  | heartbeat => exact kept

theorem run_ended (ended : d.result.isSome = true) (events : List Event) :
    run (step maxRetries) d events = d := by
  induction events with
  | nil => rfl
  | cons event rest ih =>
    have same : d.step maxRetries event = d := by
      cases event with
      | push pick world => simp [step, ended]
      | dial => rfl
      | heartbeat => rfl
    rw [run_cons, same, ih]

def pushes (events : List Event) : Nat :=
  events.countP fun
    | .push .. => true
    | _ => false

theorem left_pos (parts : Parts work [] d) (phase : Phase d) (open_ : d.result = none) : 0 < d.left := by
  cases phase with
  | running _ busy _ _ =>
    obtain ⟨f, rest, first⟩ := List.exists_cons_of_ne_nil busy
    have found : d.inflight[0]? = some f := by rw [first]; rfl
    have room := (parts.flying f (List.mem_of_getElem? found)).2.1
    have taken := left_take found
    omega
  | done ended | aborted _ _ _ ended =>
    rw [open_] at ended
    cases ended

/-- With as many dispatches ended as can end, it has returned. -/
theorem run_returns (parts : Parts work [] d) (phase : Phase d) (events : List Event)
    (enough : d.left ≤ pushes events) : (run (step maxRetries) d events).result.isSome = true := by
  induction events generalizing d with
  | nil =>
    cases ended : d.result with
    | none =>
      have some_ := left_pos parts phase ended
      simp only [pushes, List.countP_nil] at enough
      omega
    | some result => simp [ended]
  | cons event rest ih =>
    rw [run_cons]
    cases event with
    | push pick world =>
      have stepped := step_stepped maxRetries parts phase pick world
      cases ended : (d.step maxRetries (.push pick world)).result with
      | some result =>
        have beyond : (d.step maxRetries (.push pick world)).result.isSome = true := by simp [ended]
        rw [run_ended maxRetries beyond]
        exact beyond
      | none =>
        have fewer := stepped.fewer ended
        refine ih stepped.parts stepped.phase ?_
        simp only [pushes, List.countP_cons_of_pos] at enough ⊢
        omega
    | dial => exact ih parts phase enough
    | heartbeat => exact ih parts phase enough

theorem fill_frame (n : Nat) (d : Dispatcher) : (d.fill n).result = d.result ∧ (d.fill n).moreChunks = d.moreChunks ∧
    (d.fill n).calls = d.calls ∧ (d.fill n).pushed = d.pushed ∧ (d.fill n).left = d.left ∧
    d.inflight <+: (d.fill n).inflight := by
  induction n generalizing d with
  | zero => exact ⟨rfl, rfl, rfl, rfl, rfl, List.prefix_rfl⟩
  | succ n ih =>
    unfold fill
    split
    · exact ⟨rfl, rfl, rfl, rfl, rfl, List.prefix_rfl⟩
    · rename_i chunk item rest first
      obtain ⟨result, moreChunks, calls, pushed, less, window⟩ := ih ({ d with iter := rest }.launch item chunk 0)
      refine ⟨result, moreChunks, calls, pushed, less.trans ?_, (List.prefix_append ..).trans window⟩
      have same := left_refill d
      unfold refill at same
      rw [first] at same
      exact same

theorem fill_busy {n : Nat} (room : 0 < n) (some_ : d.iter ≠ []) : (d.fill n).inflight ≠ [] := by
  obtain ⟨n, rfl⟩ := Nat.exists_eq_add_of_lt room
  obtain ⟨⟨chunk, item⟩, rest, first⟩ := List.exists_cons_of_ne_nil some_
  rw [Nat.zero_add, fill, first]
  dsimp only
  have window := (fill_frame n ({ d with iter := rest }.launch item chunk 0)).2.2.2.2.2
  intro idle
  rw [idle] at window
  simp [launch] at window

theorem fresh_parts (work : List StampedChunk) : Parts work [] (fresh work) where
  items := by simp [fresh, List.range_eq_range']
  queued x member := ⟨by simpa using List.mem_zipIdx_iff_getElem?.mp member, List.not_mem_nil⟩
  flying := nofun
  called := nofun
  budget _ := Nat.zero_le _

theorem start_kept {poolLen : Nat} (mult : Nat) (some_ : work ≠ []) (pool : 0 < poolLen) :
    Parts work [] (start poolLen mult work) ∧ Phase (start poolLen mult work) ∧
      (start poolLen mult work).left = maxChunkRetries * work.length := by
  unfold start
  rw [if_neg some_, if_neg (by omega)]
  generalize size : max (min (128 * mult % 2 ^ 64) work.length) poolLen = n
  obtain ⟨result, moreChunks, calls, pushed, left, _⟩ := fill_frame n (fresh work)
  have busy : ((fresh work).fill n).inflight ≠ [] := fill_busy (by omega) (by simpa [fresh] using some_)
  have fine : Fine ((fresh work).fill n) := by
    refine ⟨?_, ?_⟩
    · rw [calls]
      exact nofun
    · rw [pushed, calls]
      rfl
  refine ⟨(fresh_parts work).fill n, .running result busy (fun beyond => ?_) fine, ?_⟩
  · rw [moreChunks] at beyond
    cases beyond
  · rw [left]
    simp [Dispatcher.left, fresh]

def callsFor (d : Dispatcher) (item : Nat) : List ChunkDone := d.calls.filter (·.item = item)

end Dispatcher

namespace Parts

variable {work : List StampedChunk} {d : Dispatcher}

theorem nodup_items (h : Parts work [] d) : (d.calls.map (·.item)).Nodup :=
  (h.items.nodup_iff.mpr List.nodup_range).of_append_right.of_append_right

theorem callsFor_le (h : Parts work [] d) (item : Nat) : (d.callsFor item).length ≤ 1 := by
  have once := List.nodup_iff_count_le_one.mp h.nodup_items item
  rw [List.count, List.countP_map, List.countP_eq_length_filter] at once
  exact once

theorem nodup_addrs (h : Parts work [] d) (distinct : (work.map (·.addr)).Nodup) : (d.calls.map (·.addr)).Nodup := by
  refine List.pairwise_map.mpr ((List.pairwise_map.mp h.nodup_items).imp_of_mem ?_)
  intro c c' member member' other same
  obtain ⟨chunk, here, addr⟩ := h.called c member
  obtain ⟨chunk', here', addr'⟩ := h.called c' member'
  have inside : c.item < (work.map (·.addr)).length := by
    rw [List.length_map]
    exact (List.getElem?_eq_some_iff.mp here).1
  have looked : (work.map (·.addr))[c.item]? = (work.map (·.addr))[c'.item]? := by
    rw [List.getElem?_map, List.getElem?_map, here, here', Option.map_some, Option.map_some, ← addr, ← addr', same]
  exact other ((List.getElem?_inj inside distinct).mp looked)

theorem callsFor_all (h : Parts work [] d) (drained : d.iter = []) (idle : d.inflight = [])
    (fine : ∀ c ∈ d.calls, c.result.isOk = true) {item : Nat} {chunk : StampedChunk} (here : work[item]? = some chunk) :
    ∃ info, d.callsFor item = [{ item, addr := chunk.addr, result := .ok info }] := by
  have all := h.items
  rw [drained, idle] at all
  have inside : item ∈ List.range work.length := List.mem_range.mpr (List.getElem?_eq_some_iff.mp here).1
  obtain ⟨c, member, rfl⟩ := List.mem_map.mp (all.mem_iff.mpr inside)
  have listed : c ∈ d.callsFor c.item := List.mem_filter.mpr ⟨member, by simp⟩
  obtain ⟨chunk', here', addr⟩ := h.called c member
  cases here.symm.trans here'
  have alone := h.callsFor_le c.item
  obtain ⟨e, only⟩ := List.length_eq_one_iff.mp (Nat.le_antisymm alone (List.length_pos_of_mem listed))
  rw [only, List.mem_singleton] at listed
  subst listed
  have ok := fine c member
  obtain ⟨item, _, result⟩ := c
  cases result with
  | error e => cases ok
  | ok info =>
    dsimp only at addr
    subst addr
    exact ⟨info, only⟩

end Parts

section

variable (poolLen mult maxRetries : Nat) (work : List StampedChunk) (events : List Event)

theorem inner_none (none_ : work = [] ∨ poolLen = 0) :
    pushChunksWithPoolInner poolLen mult maxRetries work events = .start poolLen mult work := by
  apply Dispatcher.run_ended
  unfold Dispatcher.start
  split
  · rfl
  · rw [if_pos (none_.resolve_left ‹_›)]
    rfl

theorem inner_kept (some_ : work ≠ []) (pool : 0 < poolLen) :
    Parts work [] (pushChunksWithPoolInner poolLen mult maxRetries work events) ∧
      Phase (pushChunksWithPoolInner poolLen mult maxRetries work events) := by
  apply run_invariant (fun d => Parts work [] d ∧ Phase d)
  · exact fun d event kept => Dispatcher.step_kept maxRetries d event kept
  · obtain ⟨parts, phase, _⟩ := Dispatcher.start_kept mult some_ pool
    exact ⟨parts, phase⟩

theorem inner_parts : Parts work [] (pushChunksWithPoolInner poolLen mult maxRetries work events) := by
  by_cases none_ : work = [] ∨ poolLen = 0
  · rw [inner_none poolLen mult maxRetries work events none_]
    unfold Dispatcher.start
    have whole := Dispatcher.fresh_parts work
    split
    · exact { whole with }
    · rw [if_pos (none_.resolve_left ‹_›)]
      exact { whole with }
  · rw [not_or] at none_
    exact (inner_kept poolLen mult maxRetries work events none_.1 (Nat.pos_of_ne_zero none_.2)).1

theorem inner_phase (pool : 0 < poolLen ∨ work = []) :
    Phase (pushChunksWithPoolInner poolLen mult maxRetries work events) := by
  by_cases none_ : work = []
  · rw [inner_none poolLen mult maxRetries work events (.inl none_)]
    unfold Dispatcher.start
    rw [if_pos none_]
    exact .done rfl (by simp [Dispatcher.fresh, none_]) rfl ⟨nofun, rfl⟩
  · exact (inner_kept poolLen mult maxRetries work events none_ (pool.resolve_right none_)).2

theorem inner_past_check (ok : (pushChunksWithPoolInner poolLen mult maxRetries work events).result = some (.ok ())) :
    0 < poolLen ∨ work = [] := by
  by_contra none_
  rw [not_or] at none_
  have empty : poolLen = 0 := by omega
  rw [inner_none poolLen mult maxRetries work events (.inr empty), Dispatcher.start, if_neg none_.2, if_pos empty] at ok
  cases ok

theorem inner_returns (enough : maxChunkRetries * work.length ≤ Dispatcher.pushes events) :
    (pushChunksWithPoolInner poolLen mult maxRetries work events).result.isSome = true := by
  by_cases none_ : work = [] ∨ poolLen = 0
  · rw [inner_none poolLen mult maxRetries work events none_]
    unfold Dispatcher.start
    split
    · rfl
    · rw [if_pos (none_.resolve_left ‹_›)]
      rfl
  · rw [not_or] at none_
    obtain ⟨parts, phase, left⟩ := Dispatcher.start_kept mult none_.1 (Nat.pos_of_ne_zero none_.2)
    exact Dispatcher.run_returns maxRetries parts phase events (by rwa [left])

end

/-- Every call names a work item and its address, no item is reported twice or dispatched more often than
allowed, and the dispatcher returns when as many dispatches have ended as can end. An Ok is returned when each
item has been reported once, with an Ok, and counted; an error, past the check of the pool, when the last call
and no other carried one. -/
theorem dispatcher_resolves (poolLen mult maxRetries : Nat) (work : List StampedChunk) (events : List Event) :
    let d := pushChunksWithPoolInner poolLen mult maxRetries work events
    (∀ c ∈ d.calls, ∃ chunk, work[c.item]? = some chunk ∧ c.addr = chunk.addr) ∧
    (∀ item, (d.callsFor item).length ≤ 1) ∧
    (∀ item, d.dispatched.count item ≤ maxChunkRetries) ∧
    (maxChunkRetries * work.length ≤ Dispatcher.pushes events → d.result.isSome = true) ∧
    (d.result = some (.ok ()) → d.pushed = work.length ∧ ∀ (item : Nat) (chunk : StampedChunk),
      work[item]? = some chunk → ∃ info, d.callsFor item = [{ item, addr := chunk.addr, result := .ok info }]) ∧
    (∀ e, d.result = some (.error e) → 0 < poolLen → ∃ before last, d.calls = before ++ [last] ∧
      last.result = .error e.message ∧ ∀ c ∈ before, c.result.isOk = true) := by
  have parts := inner_parts poolLen mult maxRetries work events
  refine ⟨parts.called, parts.callsFor_le, parts.budget, inner_returns poolLen mult maxRetries work events, ?_, ?_⟩
  · intro ok
    obtain ⟨drained, idle, fine⟩ := (inner_phase _ _ _ _ _ (inner_past_check _ _ _ _ _ ok)).ok ok
    refine ⟨?_, fun item chunk here => parts.callsFor_all drained idle fine.ok here⟩
    have all := parts.items.length_eq
    rw [drained, idle] at all
    rw [fine.tally]
    simpa using all
  · exact fun e failed pool => (inner_phase _ _ _ _ _ (.inl pool)).error failed

def answering (outcome : Except TransportError PushOutcome) : World :=
  { po := [8], look := fun _ _ => {}, answers := fun _ => { outcome }, later := fun _ => outcome, chunkMs := 40 }

def twoChunks : List StampedChunk :=
  [{ addr := Bytes.replicate 32 1, wire := [], stamp := [] },
    { addr := Bytes.replicate 32 2, wire := [], stamp := [] }]

def retried : List Event :=
  [.push 1 (answering (.error (.other "timeout"))), .heartbeat, .push 0 (answering (.ok .receipt)), .dial,
    .push 0 (answering (.ok .receipt))]

theorem dispatcher_resolves_retried :
    (pushChunksWithPoolInner 1 1 20 twoChunks retried).result = some (.ok ()) ∧
      (pushChunksWithPoolInner 1 1 20 twoChunks retried).dispatched = [0, 1, 1] ∧
      (pushChunksWithPoolInner 1 1 20 twoChunks retried).pushed = 2 :=
  ⟨rfl, by decide +kernel, ((dispatcher_resolves 1 1 20 twoChunks retried).2.2.2.2.1 rfl).1⟩

end Hoverfly.Dispatch
