import Hoverfly.Relay.Acks

/-! The recent-ack cache over any interleaving of push requests: what it holds, and the frames it
answers, against the frames that the dispatcher reported as pushed. -/
namespace Hoverfly.Relay
open Lib Push Dispatch

def FrameWorld.batch (w : FrameWorld) (c : StampedChunk) : Option (Bytes 32) :=
  (w.validate c).toOption.map (·.batchId)

namespace FrameLoop

/-- A taken frame has a good stamp, which names the guard's batch if there is a guard. -/
def Stamped (guard : Option Admitted) (w : FrameWorld) (c : StampedChunk) : Prop :=
  ∃ batchId, w.batch c = some batchId ∧ ∀ g ∈ guard, g.batch = batchId

variable (guard : Option Admitted)

theorem checkOwner_accepted {w : FrameWorld} (st : FrameLoop) {c : StampedChunk}
    {vs : ValidStamp} (valid : w.validate c = .ok vs) :
    (st.checkOwner guard w c vs).accepted = st.accepted ∨
      ((st.checkOwner guard w c vs).accepted = st.accepted ++ [c] ∧ Stamped guard w c) := by
  unfold checkOwner
  split
  · exact .inl rfl
  split
  · split
    · exact .inl rfl
    · rename_i named
      unfold admitFrame
      dsimp only
      split
      · exact .inl rfl
      · refine .inr ⟨rfl, vs.batchId, by simp [FrameWorld.batch, valid, Except.toOption], fun g here => ?_⟩
        cases here
        simpa using named
  · exact .inl rfl

theorem frame_accepted (w : FrameWorld) (st : FrameLoop) (c : StampedChunk) :
    (st.frame guard w c).accepted = st.accepted ∨
      ((st.frame guard w c).accepted = st.accepted ++ [c] ∧ Stamped guard w c) := by
  unfold frame
  dsimp only
  split
  · exact .inl rfl
  · rename_i valid
    split
    · exact checkOwner_accepted guard st valid
    · split
      · exact .inl rfl
      · exact checkOwner_accepted guard { st with batchHex := _, batchOwner := _ } valid

theorem frame_congr (w : FrameWorld) {recent recent' : Nat → Bytes 32 → Bytes 32 → Bool}
    (st : FrameLoop) (c : StampedChunk) (same : recent st.index = recent' st.index) :
    st.frame guard { w with recent } c = st.frame guard { w with recent := recent' } c := by
  simp only [frame, checkOwner, admitFrame, same]

end FrameLoop

variable (guard : Option Admitted) (w : FrameWorld) (chunks : List StampedChunk)

theorem frameLoop_concat (c : StampedChunk) :
    frameLoop guard w (chunks ++ [c]) = (frameLoop guard w chunks).frame guard w c := by
  unfold frameLoop
  rw [List.foldl_append]
  rfl

theorem frameLoop_stamped :
    ∀ c ∈ (frameLoop guard w chunks).accepted, FrameLoop.Stamped guard w c := by
  refine foldl_invariant (fun _ st => ∀ c ∈ st.accepted, FrameLoop.Stamped guard w c) (FrameLoop.frame guard w)
    chunks {} nofun ?_
  rintro seen chunk st - stamped c member
  rcases FrameLoop.frame_accepted guard w st chunk with same | ⟨more, good⟩
  · exact stamped c (same ▸ member)
  · rw [more] at member
    rcases List.mem_append.mp member with old | new
    · exact stamped c old
    · exact List.mem_singleton.mp new ▸ good

theorem index_frameLoop :
    (frameLoop guard w chunks).index = chunks.length := by
  refine foldl_invariant (fun seen st => st.index = seen.length) (FrameLoop.frame guard w) chunks {} rfl ?_
  rintro seen chunk st - index
  rw [List.length_append, ← index]
  rfl

theorem frameLoop_congr {recent recent' : Nat → Bytes 32 → Bytes 32 → Bool}
    (same : ∀ i < chunks.length, recent i = recent' i) :
    frameLoop guard { w with recent } chunks = frameLoop guard { w with recent := recent' } chunks := by
  induction chunks using List.reverseRecOn with
  | nil => rfl
  | append_singleton seen c ih =>
    rw [List.length_append] at same
    rw [frameLoop_concat, frameLoop_concat, ih fun i inside => same i (Nat.lt_add_right _ inside)]
    refine FrameLoop.frame_congr guard w _ c ?_
    rw [index_frameLoop]
    exact same _ (Nat.lt_succ_self _)

def Unmixed (w : FrameWorld) (accepted : List StampedChunk) : Prop :=
  ∀ c ∈ accepted, ∀ c' ∈ accepted, c.addr = c'.addr → w.batch c = w.batch c'

instance (w : FrameWorld) (accepted : List StampedChunk) : Decidable (Unmixed w accepted) := by
  unfold Unmixed
  infer_instance

def reportedKeys (w : FrameWorld) (work : List StampedChunk) (calls : List ChunkDone) :
    List (Bytes 32 × Bytes 32) :=
  (calls.filter (·.result.isOk)).filterMap fun call =>
    work[call.item]?.bind fun c => (w.batch c).map fun batchId => (c.addr, batchId)

theorem batchOf_eq (accepted : List StampedChunk) :
    batchOf w accepted = insertAll ∅ (accepted.filterMap fun c => (w.batch c).map fun b => (c.addr, b)) := by
  unfold batchOf FrameWorld.batch
  simp only [Option.map_map]
  rfl

variable {w : FrameWorld}

theorem batchOf_lookup {accepted : List StampedChunk} {c : StampedChunk} (member : c ∈ accepted)
    {batchId : Bytes 32} (named : w.batch c = some batchId) :
    ∃ c' ∈ accepted, c'.addr = c.addr ∧ w.batch c' = some (((batchOf w accepted).lookup c.addr).getD
      (Bytes.replicate 32 0)) := by
  have known : c.addr ∈ batchOf w accepted := by
    rw [batchOf_eq, mem_insertAll]
    refine .inl (List.mem_map.mpr ⟨(c.addr, batchId), List.mem_filterMap.mpr ⟨c, member, ?_⟩, rfl⟩)
    rw [named]
    rfl
  obtain ⟨last, found⟩ := Option.isSome_iff_exists.mp (AList.lookup_isSome.mpr known)
  have entry : (c.addr, last) ∈ _ := mem_of_lookup_insertAll _ _ _ (batchOf_eq w accepted ▸ found)
  obtain ⟨c', inside, made⟩ := List.mem_filterMap.mp entry
  obtain ⟨b, named', pair⟩ := Option.map_eq_some_iff.mp made
  obtain ⟨addr, rfl⟩ := Prod.mk.inj pair
  exact ⟨c', inside, addr, by rw [found, named', Option.getD_some]⟩

theorem cached_reported {st : FrameLoop} {d : Dispatcher} (parts : Parts st.accepted [] d)
    (stamped : ∀ c ∈ st.accepted, (w.batch c).isSome = true) (unmixed : Unmixed w st.accepted)
    (result : Except ClientError Unit) {key : Bytes 32 × Bytes 32} (cached : key ∈ (reconcile w st d result).cached) :
    key ∈ reportedKeys w st.accepted d.calls := by
  obtain ⟨⟨addr, ok⟩, landed, rfl⟩ := List.mem_map.mp cached
  obtain ⟨entry, isOk⟩ := List.mem_filter.mp landed
  have found := AList.mem_lookup_iff.mpr entry
  obtain ⟨call, called, pair⟩ := List.mem_map.mp (mem_of_lookup_insertAll _ addr ok found)
  cases pair
  obtain ⟨c, here, same⟩ := parts.called call called
  have member := List.mem_of_getElem? here
  obtain ⟨batchId, named⟩ := Option.isSome_iff_exists.mp (stamped c member)
  obtain ⟨c', inside, addr, last⟩ := batchOf_lookup member named
  refine List.mem_filterMap.mpr ⟨call, List.mem_filter.mpr ⟨called, isOk⟩, ?_⟩
  rw [here, Option.bind_some, unmixed c member c' inside addr.symm, last, same]
  rfl

theorem unmixed_of_guard {g : Admitted} {accepted : List StampedChunk}
    (stamped : ∀ c ∈ accepted, FrameLoop.Stamped (some g) w c) : Unmixed w accepted := by
  intro c member c' member' _
  obtain ⟨b, named, same⟩ := stamped c member
  obtain ⟨b', named', same'⟩ := stamped c' member'
  rw [named, named', ← same g rfl, ← same' g rfl]

def recentAckCap : Nat := 8192
def recentAckTtlSecs : Nat := 120

/-- Keys are an address and a batch, times are in seconds. -/
structure RecentAcks where
  seen : AList (fun _ : Bytes 32 × Bytes 32 => Nat) := ∅
  order : List (Bytes 32 × Bytes 32) := []
  cap : Nat
  ttl : Nat

namespace RecentAcks

def contains (r : RecentAcks) (now : Nat) (addr batchId : Bytes 32) : Bool :=
  (r.seen.lookup (addr, batchId)).any fun t => now - t < r.ttl

def evict (cap : Nat) (seen : AList (fun _ : Bytes 32 × Bytes 32 => Nat)) :
    List (Bytes 32 × Bytes 32) → AList (fun _ : Bytes 32 × Bytes 32 => Nat) × List (Bytes 32 × Bytes 32)
  | [] => (seen, [])
  | old :: rest => if rest.length + 1 > cap then evict cap (seen.erase old) rest else (seen, old :: rest)

def insert (r : RecentAcks) (now : Nat) (addr batchId : Bytes 32) : RecentAcks :=
  let key := (addr, batchId)
  let order := if key ∈ r.seen then r.order else r.order ++ [key]
  let kept := evict r.cap (r.seen.insert key now) order
  { r with seen := kept.1, order := kept.2 }

theorem seen_evict (cap : Nat) (order : List (Bytes 32 × Bytes 32))
    {seen : AList (fun _ : Bytes 32 × Bytes 32 => Nat)} {key : Bytes 32 × Bytes 32}
    (member : key ∈ (evict cap seen order).1) : key ∈ seen := by
  induction order generalizing seen with
  | nil => exact member
  | cons old rest ih =>
    unfold evict at member
    split at member
    · exact (AList.mem_erase.mp (ih member)).2
    · exact member

variable {r : RecentAcks} {now : Nat} {addr batchId : Bytes 32}

theorem seen_insert {key : Bytes 32 × Bytes 32}
    (member : key ∈ (r.insert now addr batchId).seen) : key = (addr, batchId) ∨ key ∈ r.seen :=
  (AList.mem_insert _).mp (seen_evict _ _ member)

def Tidy (r : RecentAcks) : Prop := r.order.Perm r.seen.keys ∧ r.order.length ≤ r.cap

theorem tidy_evict (cap : Nat) (order : List (Bytes 32 × Bytes 32))
    {seen : AList (fun _ : Bytes 32 × Bytes 32 => Nat)} (same : order.Perm seen.keys) :
    (evict cap seen order).2.Perm (evict cap seen order).1.keys ∧ (evict cap seen order).2.length ≤ cap := by
  induction order generalizing seen with
  | nil => exact ⟨same, Nat.zero_le _⟩
  | cons old rest ih =>
    unfold evict
    split
    · exact ih (perm_keys_erase same)
    · rename_i within
      exact ⟨same, Nat.le_of_not_lt within⟩

theorem Tidy.insert (tidy : r.Tidy) (now : Nat) (addr batchId : Bytes 32) :
    (r.insert now addr batchId).Tidy := by
  refine tidy_evict r.cap _ (List.Perm.trans ?_ (perm_keys_insert ..).symm)
  split
  · exact tidy.1
  · exact (List.perm_append_singleton ..).trans (tidy.1.cons _)

theorem found_of_contains
    (hit : r.contains now addr batchId = true) : ∃ t, r.seen.lookup (addr, batchId) = some t ∧ now - t < r.ttl := by
  unfold contains at hit
  cases found : r.seen.lookup (addr, batchId) with
  | none =>
    rw [found] at hit
    cases hit
  | some t => exact ⟨t, rfl, by simpa [found] using hit⟩

theorem mem_of_contains (hit : r.contains now addr batchId = true) : (addr, batchId) ∈ r.seen := by
  obtain ⟨t, found, -⟩ := found_of_contains hit
  exact AList.lookup_isSome.mp (by rw [found]; rfl)

end RecentAcks

inductive Post where
  /-- In the frame loop. The world's own answers on the cache are not asked for. -/
  | framing (guard : Option Admitted) (world : FrameWorld) (chunks : List StampedChunk) (loop : FrameLoop)
  /-- The dispatcher has returned, and these keys are still to go into the cache. -/
  | pushed (world : FrameWorld) (accepted : List StampedChunk) (d : Dispatcher)
      (uncached : List (Bytes 32 × Bytes 32))
  | ended

namespace Post

def uncached : Post → List (Bytes 32 × Bytes 32)
  | .pushed _ _ _ keys => keys
  | _ => []

def reported : Post → List (Bytes 32 × Bytes 32)
  | .pushed world accepted d _ => reportedKeys world accepted d.calls
  | _ => []

/-- No address of an open request goes to the dispatcher under two batches. -/
def OneBatchEach : Post → Prop
  | .framing none world _ loop => Unmixed world loop.accepted
  | _ => True

instance : (p : Post) → Decidable p.OneBatchEach
  | .framing none world _ loop => inferInstanceAs (Decidable (Unmixed world loop.accepted))
  | .framing (some _) .. | .pushed .. | .ended => .isTrue trivial

end Post

structure Intake where
  recent : RecentAcks
  posts : List Post := []

namespace Intake

/-- Each is one use of the cache's lock, or none. The cached keys go in one by one, in any order. -/
inductive Event where
  | post (guard : Option Admitted) (world : FrameWorld) (chunks : List StampedChunk)
  | frame (id now : Nat)
  | push (id : Nat) (pool : Except String Nat) (mult : Nat) (events : List Dispatch.Event)
  | cache (id now pick : Nat)

def worldAt (s : Intake) (now : Nat) (world : FrameWorld) : FrameWorld :=
  { world with recent := fun _ => s.recent.contains now }

def setPost (s : Intake) (id : Nat) (p : Post) : Intake := { s with posts := s.posts.set id p }

def afterFrames (world : FrameWorld) (loop : FrameLoop) (pool : Except String Nat) (mult : Nat)
    (events : List Dispatch.Event) : Option Post :=
  if loop.accepted = [] then some .ended
  else
    match pool with
    | .error _ => some .ended
    | .ok poolLen =>
      let d := pushChunksWithPoolInner poolLen mult pushMaxRetries loop.accepted events
      d.result.map fun result => .pushed world loop.accepted d (reconcile world loop d result).cached

def step (s : Intake) : Event → Intake
  | .post guard world chunks => { s with posts := s.posts ++ [.framing guard world chunks {}] }
  | .frame id now =>
    match s.posts[id]? with
    | some (.framing guard world chunks loop) =>
      match chunks[loop.index]? with
      | some c => s.setPost id (.framing guard world chunks (loop.frame guard (s.worldAt now world) c))
      | none => s
    | _ => s
  | .push id pool mult events =>
    match s.posts[id]? with
    | some (.framing _ world chunks loop) =>
      if loop.index < chunks.length then s
      else ((afterFrames world loop pool mult events).map (s.setPost id)).getD s
    | _ => s
  | .cache id now pick =>
    match s.posts[id]? with
    | some (.pushed world accepted d uncached) =>
      match uncached[pick]? with
      | some key =>
        { recent := s.recent.insert now key.1 key.2
          posts := s.posts.set id (.pushed world accepted d (uncached.eraseIdx pick)) }
      | none => s
    | _ => s

def start (cap ttl : Nat) : Intake := { recent := { cap, ttl } }

inductive Moves (s : Intake) : Event → Intake → Prop
  | idle (e : Event) : Moves s e s
  | post (guard : Option Admitted) (world : FrameWorld) (chunks : List StampedChunk) :
      Moves s (.post guard world chunks) { s with posts := s.posts ++ [.framing guard world chunks {}] }
  | frame (id now : Nat) (guard : Option Admitted) (world : FrameWorld) (chunks : List StampedChunk)
      (loop : FrameLoop) (c : StampedChunk) (found : s.posts[id]? = some (.framing guard world chunks loop))
      (next : chunks[loop.index]? = some c) :
      Moves s (.frame id now) (s.setPost id (.framing guard world chunks (loop.frame guard (s.worldAt now world) c)))
  | push (id : Nat) (pool : Except String Nat) (mult : Nat) (events : List Dispatch.Event)
      (guard : Option Admitted) (world : FrameWorld) (chunks : List StampedChunk) (loop : FrameLoop) (p : Post)
      (found : s.posts[id]? = some (.framing guard world chunks loop))
      (after : afterFrames world loop pool mult events = some p) :
      Moves s (.push id pool mult events) (s.setPost id p)
  | cache (id now pick : Nat) (world : FrameWorld) (accepted : List StampedChunk) (d : Dispatcher)
      (uncached : List (Bytes 32 × Bytes 32)) (key : Bytes 32 × Bytes 32)
      (found : s.posts[id]? = some (.pushed world accepted d uncached)) (next : uncached[pick]? = some key) :
      Moves s (.cache id now pick)
        { recent := s.recent.insert now key.1 key.2
          posts := s.posts.set id (.pushed world accepted d (uncached.eraseIdx pick)) }

theorem step_moves (s : Intake) (e : Event) : Moves s e (s.step e) := by
  cases e with
  | post guard world chunks => exact .post guard world chunks
  | frame id now =>
    dsimp only [step]
    split
    · split
      · exact .frame id now _ _ _ _ _ ‹_› ‹_›
      · exact .idle _
    · exact .idle _
  | push id pool mult events =>
    dsimp only [step]
    split
    · rename_i guard world chunks loop found
      split
      · exact .idle _
      · cases after : afterFrames world loop pool mult events with
        | none => exact .idle _
        | some p => exact .push id pool mult events guard world chunks loop p found after
    · exact .idle _
  | cache id now pick =>
    dsimp only [step]
    split
    · split
      · exact .cache id now pick _ _ _ _ _ ‹_› ‹_›
      · exact .idle _
    · exact .idle _

def Traced : Post → Prop
  | .framing guard world chunks loop =>
    ∃ recent, loop = frameLoop guard { world with recent } (chunks.take loop.index)
  | .pushed .. => True
  | .ended => True

variable {s s' : Intake} {id : Nat} {p : Post} {e : Event}

theorem traced_set (traced : ∀ p ∈ s.posts, Traced p) (new : Traced p) :
    ∀ p' ∈ s.posts.set id p, Traced p' := by
  intro p' member
  rcases List.mem_or_eq_of_mem_set member with old | same
  · exact traced p' old
  · exact same ▸ new

theorem traced_moves (traced : ∀ p ∈ s.posts, Traced p) (moves : Moves s e s') :
    ∀ p ∈ s'.posts, Traced p := by
  cases moves with
  | idle => exact traced
  | post guard world chunks =>
    intro p member
    rcases List.mem_append.mp member with old | new
    · exact traced p old
    · cases List.mem_singleton.mp new
      exact ⟨world.recent, rfl⟩
  | frame id now guard world chunks loop c found next =>
    refine traced_set traced ?_
    obtain ⟨recent, same⟩ := traced _ (List.mem_of_getElem? found)
    obtain ⟨inside, here⟩ := List.getElem?_eq_some_iff.mp next
    have length : (chunks.take loop.index).length = loop.index := by
      rw [List.length_take]
      omega
    -- What the cache says now is its answer at this frame's number.
    let answers : Nat → Bytes 32 → Bytes 32 → Bool := fun i =>
      if i < loop.index then recent i else s.recent.contains now
    have before : frameLoop guard { world with recent := answers } (chunks.take loop.index) = loop := by
      refine Eq.trans (frameLoop_congr guard world _ fun i below => ?_) same.symm
      exact if_pos (length ▸ below)
    refine ⟨answers, ?_⟩
    show loop.frame guard (s.worldAt now world) c = frameLoop guard _ (chunks.take (loop.index + 1))
    rw [List.take_add_one, next, Option.toList_some, frameLoop_concat, before]
    exact FrameLoop.frame_congr guard world loop c (if_neg (Nat.lt_irrefl _)).symm
  | push id pool mult events guard world chunks loop p found after =>
    refine traced_set traced ?_
    unfold afterFrames at after
    split at after
    · cases after
      trivial
    · split at after
      · cases after
        trivial
      · obtain ⟨result, _, rfl⟩ := Option.map_eq_some_iff.mp after
        trivial
  | cache => exact traced_set traced trivial

theorem posts_run_push (cap ttl : Nat) (events : List Event) :
    ∀ p ∈ (run step (start cap ttl) events).posts, ∀ guard world chunks loop, p = .framing guard world chunks loop →
      chunks.length ≤ loop.index → ∃ recent, loop = frameLoop guard { world with recent } chunks ∧
        ∀ pool mult pushes w accepted d uncached,
          afterFrames world loop pool mult pushes = some (.pushed w accepted d uncached) →
          (runPush guard { world with recent } pool mult chunks pushes).map PushRun.cached = some uncached := by
  rintro p member guard world chunks loop rfl finished
  have traced := run_invariant (fun s : Intake => ∀ p ∈ s.posts, Traced p) step
    (fun s e traced => traced_moves traced (s.step_moves e)) (start cap ttl) events nofun
  obtain ⟨recent, same⟩ := traced _ member
  rw [List.take_of_length_le finished] at same
  refine ⟨recent, same, fun pool mult pushes w accepted d uncached after => ?_⟩
  unfold afterFrames at after
  unfold runPush
  rw [← same]
  dsimp only
  split at after
  · cases after
  rename_i some_
  rw [if_neg some_]
  cases pool with
  | error e => cases after
  | ok poolLen =>
    obtain ⟨result, done, made⟩ := Option.map_eq_some_iff.mp after
    cases made
    dsimp only
    rw [done]
    rfl

theorem tidy_moves (tidy : s.recent.Tidy) (moves : Moves s e s') : s'.recent.Tidy := by
  cases moves with
  | idle | post | frame | push => exact tidy
  | cache => exact tidy.insert _ _ _

theorem recent_tidy (cap ttl : Nat) (events : List Event) : (run step (start cap ttl) events).recent.Tidy :=
  run_invariant (fun s : Intake => s.recent.Tidy) step (fun s e tidy => tidy_moves tidy (s.step_moves e))
    (start cap ttl) events ⟨.refl _, Nat.zero_le _⟩

/-- The dispatcher of some request reported a frame with this address under this batch as pushed. -/
def Reported (s : Intake) (key : Bytes 32 × Bytes 32) : Prop := ∃ p ∈ s.posts, key ∈ p.reported

instance (s : Intake) (key : Bytes 32 × Bytes 32) : Decidable (s.Reported key) :=
  inferInstanceAs (Decidable (∃ p ∈ s.posts, key ∈ p.reported))

def OneBatchEach (s : Intake) : Event → Prop
  | .push id .. => ∀ p ∈ s.posts[id]?, p.OneBatchEach
  | _ => True

instance (s : Intake) : (e : Event) → Decidable (s.OneBatchEach e)
  | .push id .. => inferInstanceAs (Decidable (∀ p ∈ s.posts[id]?, p.OneBatchEach))
  | .post .. | .frame .. | .cache .. => .isTrue trivial

/-- A frame answered from the cache was reported as pushed before, under its own batch. -/
def HonestAck (s : Intake) : Event → Prop
  | .frame id now => ∀ guard world chunks loop c, s.posts[id]? = some (.framing guard world chunks loop) →
      chunks[loop.index]? = some c →
      (loop.frame guard (s.worldAt now world) c).acks = loop.acks ++ [.dedup c.addr] →
        ∃ batchId, world.batch c = some batchId ∧ s.Reported (c.addr, batchId)
  | _ => True

structure Honest (s : Intake) : Prop where
  traced : ∀ p ∈ s.posts, Traced p
  waiting : ∀ p ∈ s.posts, ∀ key ∈ p.uncached, key ∈ p.reported
  cached : ∀ key ∈ s.recent.seen, s.Reported key

theorem reported_set {posts : List Post} {p' : Post} (found : posts[id]? = some p)
    {key : Bytes 32 × Bytes 32} (kept : key ∈ p.reported → key ∈ p'.reported)
    (reported : ∃ q ∈ posts, key ∈ q.reported) : ∃ q ∈ posts.set id p', key ∈ q.reported := by
  obtain ⟨q, member, told⟩ := reported
  by_cases same : q = p
  · have inside := (List.getElem?_eq_some_iff.mp found).1
    exact ⟨p', List.mem_set inside p', kept (same ▸ told)⟩
  · exact ⟨q, mem_set_of_ne found same member, told⟩

theorem reported_moves (moves : Moves s e s') {key : Bytes 32 × Bytes 32}
    (reported : s.Reported key) : s'.Reported key := by
  cases moves with
  | idle => exact reported
  | post =>
    obtain ⟨p, member, told⟩ := reported
    exact ⟨p, List.mem_append_left _ member, told⟩
  | frame id now guard world chunks loop c found next => exact reported_set found nofun reported
  | push id pool mult events guard world chunks loop p found after => exact reported_set found nofun reported
  | cache id now pick world accepted d uncached key found next => exact reported_set found (·) reported

theorem waiting_set (honest : s.Honest) (new : ∀ key ∈ p.uncached, key ∈ p.reported) :
    ∀ p' ∈ s.posts.set id p, ∀ key ∈ p'.uncached, key ∈ p'.reported := by
  intro p' member
  rcases List.mem_or_eq_of_mem_set member with old | same
  · exact honest.waiting p' old
  · exact same ▸ new

theorem afterFrames_reported {guard : Option Admitted} {world : FrameWorld} {chunks : List StampedChunk}
    {loop : FrameLoop} (traced : Traced (.framing guard world chunks loop))
    (unmixed : (Post.framing guard world chunks loop).OneBatchEach) {pool : Except String Nat} {mult : Nat}
    {events : List Dispatch.Event} (after : afterFrames world loop pool mult events = some p) :
    ∀ key ∈ p.uncached, key ∈ p.reported := by
  obtain ⟨recent, same⟩ := traced
  have stamped : ∀ c ∈ loop.accepted, FrameLoop.Stamped guard world c := by
    rw [same]
    exact frameLoop_stamped guard { world with recent } _
  have apart : Unmixed world loop.accepted := by
    cases guard with
    | none => exact unmixed
    | some g => exact unmixed_of_guard stamped
  unfold afterFrames at after
  split at after
  · cases after
    exact nofun
  split at after
  · cases after
    exact nofun
  obtain ⟨result, _, rfl⟩ := Option.map_eq_some_iff.mp after
  refine fun key member => cached_reported (inner_parts _ _ _ _ _) (fun c inside => ?_) apart result member
  obtain ⟨batchId, named, _⟩ := stamped c inside
  rw [named]
  rfl

theorem Honest.moves (honest : s.Honest) (unmixed : s.OneBatchEach e) (moves : Moves s e s') : s'.Honest := by
  have older : ∀ key ∈ s.recent.seen, s'.Reported key := fun key member =>
    reported_moves moves (honest.cached key member)
  have told : ∀ p ∈ s.posts, ∀ key ∈ p.uncached, s'.Reported key := fun p member key waits =>
    reported_moves moves ⟨p, member, honest.waiting p member key waits⟩
  have traced := traced_moves honest.traced moves
  cases moves with
  | idle => exact honest
  | post guard world chunks =>
    refine ⟨traced, fun p member => ?_, older⟩
    rcases List.mem_append.mp member with old | new
    · exact honest.waiting p old
    · cases List.mem_singleton.mp new
      exact nofun
  | frame => exact ⟨traced, waiting_set honest nofun, older⟩
  | push id pool mult events guard world chunks loop p found after =>
    have reported := afterFrames_reported (honest.traced _ (List.mem_of_getElem? found)) (unmixed _ found) after
    exact ⟨traced, waiting_set honest reported, older⟩
  | cache id now pick world accepted d uncached key found next =>
    have member := List.mem_of_getElem? found
    refine ⟨traced, waiting_set honest fun other waits => ?_, fun other cached => ?_⟩
    · exact honest.waiting _ member other (List.mem_of_mem_eraseIdx waits)
    · rcases RecentAcks.seen_insert cached with same | old
      · exact same ▸ told _ member key (List.mem_of_getElem? next)
      · exact older other old

theorem Honest.ack (honest : s.Honest) (e : Event) : s.HonestAck e := by
  cases e with
  | post | push | cache => trivial
  | frame id now =>
    intro guard world chunks loop c found next answered
    rcases FrameLoop.took_frame guard (s.worldAt now world) loop c with ⟨_, _, ack, acks, why⟩ | ⟨_, _, acks⟩
    · rw [acks, List.append_cancel_left_eq, List.singleton_inj] at answered
      subst answered
      rcases why with ⟨_, vs, valid, hit⟩ | ⟨message, wrong⟩
      · refine ⟨vs.batchId, ?_, honest.cached _ (RecentAcks.mem_of_contains hit)⟩
        have same : world.validate c = .ok vs := valid
        rw [FrameWorld.batch, same]
        rfl
      · cases wrong
    · rw [acks] at answered
      exact absurd answered (by simp)

/-- In every interleaving of requests, each of them free of addresses under two batches when it is open,
every key of the cache and every frame answered from it goes back to a frame with that address, under that
batch, that a dispatcher reported as pushed. -/
theorem dedup_honest (cap ttl : Nat) (events : List Event)
    (unmixed : Along OneBatchEach step (start cap ttl) events) :
    (∀ pre, pre <+: events → ∀ key ∈ (run step (start cap ttl) pre).recent.seen,
      (run step (start cap ttl) pre).Reported key) ∧
    Along HonestAck step (start cap ttl) events := by
  have fresh : (start cap ttl).Honest := ⟨nofun, nofun, nofun⟩
  have keep : ∀ (s : Intake) (e : Event), s.Honest → s.OneBatchEach e → (s.step e).Honest :=
    fun s e honest ok => honest.moves ok (s.step_moves e)
  constructor
  · rintro pre ⟨rest, rfl⟩
    have before := ((along_append ..).mp unmixed).1
    exact (invariant_along Honest OneBatchEach step keep (start cap ttl) pre fresh before).cached
  · exact along_of_invariant keep (fun s e honest _ => honest.ack e) events fresh unmixed

def twoBatches : FrameWorld where
  validate c := .ok { batchId := Bytes.replicate 32 (if c.stamp = [] then 7 else 8), signer := Bytes.replicate 20 9 }
  resolveOwner _ _ := .ok (Bytes.replicate 20 9, 1)
  recent _ _ _ := false

def stamped (addr : UInt8) (stamp : List UInt8) : StampedChunk := { addr := Bytes.replicate 32 addr, wire := [], stamp }

def abortedPost (third : StampedChunk) : List Event :=
  [.post none twoBatches [stamped 1 [], stamped 2 [], third], .frame 0 0, .frame 0 0, .frame 0 0,
    .push 0 (.ok 1) 1 abortedPush, .cache 0 1 0]

def repeated : List Event := abortedPost (stamped 3 [0]) ++ [.post none twoBatches [stamped 1 []], .frame 1 2]

theorem dedup_honest_repeated :
    let s := run step (start recentAckCap recentAckTtlSecs)
    (Bytes.replicate 32 1, Bytes.replicate 32 7) ∈ (s repeated).recent.seen ∧
      (s repeated).Reported (Bytes.replicate 32 1, Bytes.replicate 32 7) ∧
      Along HonestAck step (start recentAckCap recentAckTtlSecs) repeated := by
  have unmixed : Along OneBatchEach step (start recentAckCap recentAckTtlSecs) repeated := by decide +kernel
  have cached : (Bytes.replicate 32 1, Bytes.replicate 32 7) ∈
      (run step (start recentAckCap recentAckTtlSecs) repeated).recent.seen := by decide +kernel
  obtain ⟨keys, acks⟩ := dedup_honest recentAckCap recentAckTtlSecs repeated unmixed
  exact ⟨cached, keys repeated (List.prefix_refl _) _ cached, acks⟩

def mixed : List Event := abortedPost (stamped 1 [0])

/-- It is cached though it was never pushed, and a second request with it is answered from the cache. -/
theorem mixed_dishonest :
    let s := run step (start recentAckCap recentAckTtlSecs) mixed
    let asked := run step s [.post none twoBatches [stamped 1 [0]]]
    (Bytes.replicate 32 1, Bytes.replicate 32 8) ∈ s.recent.seen ∧
      ¬ s.Reported (Bytes.replicate 32 1, Bytes.replicate 32 8) ∧
      (FrameLoop.frame none (asked.worldAt 2 twoBatches) {} (stamped 1 [0])).acks = [.dedup (Bytes.replicate 32 1)] := by
  decide +kernel

end Intake

end Hoverfly.Relay
