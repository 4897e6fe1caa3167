import Hoverfly.Lib.Chunks

/-! Grouping a sequence level by level: `climb` groups a whole level at once, and `feed` keeps one unfinished group
a level. -/
namespace Hoverfly.Lib.Cascade

section
variable {A : Type*} (b : Nat) (node : List A → A)

def pack : List A → A
  | [x] => x
  | g => node g

def climb (xs : List A) : List A := (chunks b xs).map (pack node)

/-- The unfinished groups, lowest level first, and what has left the last of them. -/
structure State (A : Type*) where
  levels : List (List A)
  crown : List A

def feed : A → List (List A) → List A → State A
  | x, [], crown => ⟨[], crown ++ [x]⟩
  | x, g :: up, crown =>
    if g.length + 1 < b then ⟨(g ++ [x]) :: up, crown⟩
    else
      let above := feed (node (g ++ [x])) up crown
      ⟨[] :: above.levels, above.crown⟩

def feedAll (s : State A) (xs : List A) : State A := xs.foldl (fun s x => feed b node x s.levels s.crown) s

/-- What reaches the crown once `xs` follow and every group is packed. -/
def top : List (List A) → List A → List A → List A
  | [], crown, xs => crown ++ xs
  | g :: up, crown, xs => top up crown (climb b node (g ++ xs))

/-- The number of elements a state holds, when every packed group was full. -/
def weight : List (List A) → List A → Nat
  | [], crown => crown.length
  | g :: up, crown => g.length + b * weight up crown

end

variable {A : Type*} {b : Nat} {node : List A → A} {levels : List (List A)} {crown xs : List A} {x : A} {g : List A}

theorem pack_of_two (two : 2 ≤ g.length) : pack node g = node g := by
  match g, two with
  | _ :: _ :: _, _ => rfl

@[simp] theorem climb_nil : climb b node [] = [] := rfl

theorem climb_full (pos : 0 < b) (full : g.length = b) :
    climb b node (g ++ xs) = pack node g :: climb b node xs := by
  rw [climb, chunks_append pos full, List.map_cons]
  rfl

theorem climb_short (some_ : g ≠ []) (short : g.length ≤ b) : climb b node g = [pack node g] := by
  rw [climb, chunks_short some_ short, List.map_singleton]

theorem top_feed (two : 2 ≤ b) (short : ∀ g ∈ levels, g.length < b) (x : A) (xs : List A) :
    top b node (feed b node x levels crown).levels (feed b node x levels crown).crown xs =
      top b node levels crown (x :: xs) := by
  induction levels generalizing x xs with
  | nil => simp [feed, top]
  | cons g up ih =>
    have here := short g (List.mem_cons_self ..)
    unfold feed
    split
    · simp [top]
    · rename_i fills
      have full : (g ++ [x]).length = b := by
        rw [List.length_append, List.length_singleton]
        omega
      simp only [top, List.nil_append]
      have group : g ++ x :: xs = (g ++ [x]) ++ xs := by simp
      rw [ih (fun g' member => short g' (List.mem_cons_of_mem _ member)), group,
        climb_full (by omega) full, pack_of_two (by omega)]

theorem feed_short (pos : 0 < b) (short : ∀ g ∈ levels, g.length < b) (x : A) :
    ∀ g ∈ (feed b node x levels crown).levels, g.length < b := by
  induction levels generalizing x with
  | nil => exact fun g member => nomatch member
  | cons g up ih =>
    have above : ∀ g' ∈ up, g'.length < b := fun g' member => short g' (List.mem_cons_of_mem _ member)
    unfold feed
    split
    · rename_i room
      rintro g' (_ | ⟨_, member⟩)
      · rw [List.length_append, List.length_singleton]
        exact room
      · exact above g' member
    · rintro g' (_ | ⟨_, member⟩)
      · exact pos
      · exact ih above _ g' member

theorem length_feed (x : A) : (feed b node x levels crown).levels.length = levels.length := by
  induction levels generalizing x with
  | nil => rfl
  | cons g up ih =>
    unfold feed
    split
    · rfl
    · exact congrArg (· + 1) (ih _)

theorem weight_feed (short : ∀ g ∈ levels, g.length < b) (x : A) :
    weight b (feed b node x levels crown).levels (feed b node x levels crown).crown =
      weight b levels crown + 1 := by
  induction levels generalizing x with
  | nil => simp [feed, weight]
  | cons g up ih =>
    have here := short g (List.mem_cons_self ..)
    have above := ih (fun g' member => short g' (List.mem_cons_of_mem _ member)) (node (g ++ [x]))
    unfold feed
    split
    · simp only [weight, List.length_append, List.length_singleton]
      omega
    · simp only [weight, List.length_nil, above, Nat.mul_succ]
      omega

theorem weight_lt (short : ∀ g ∈ levels, g.length < b) : weight b levels [] < b ^ levels.length := by
  induction levels with
  | nil => exact Nat.one_pos
  | cons g up ih =>
    have here := short g (List.mem_cons_self ..)
    have above := ih fun g' member => short g' (List.mem_cons_of_mem _ member)
    calc g.length + b * weight b up [] < b + b * weight b up [] := by omega
      _ = b * (weight b up [] + 1) := by ring
      _ ≤ b * b ^ up.length := Nat.mul_le_mul_left _ above
      _ = b ^ (g :: up).length := by rw [List.length_cons, Nat.pow_succ, Nat.mul_comm]

theorem le_weight : b ^ levels.length * crown.length ≤ weight b levels crown := by
  induction levels with
  | nil => simp [weight]
  | cons g up ih =>
    calc b ^ (g :: up).length * crown.length = b * (b ^ up.length * crown.length) := by
          rw [List.length_cons, Nat.pow_succ]
          ring
      _ ≤ b * weight b up crown := Nat.mul_le_mul_left _ ih
      _ ≤ g.length + b * weight b up crown := Nat.le_add_left _ _

theorem length_crown_feed (x : A) : (feed b node x levels crown).crown.length ≤ crown.length + 1 := by
  induction levels generalizing x with
  | nil => simp [feed]
  | cons g up ih =>
    unfold feed
    split
    · exact Nat.le_succ _
    · exact ih _

theorem top_feedAll (two : 2 ≤ b) {s : State A} (short : ∀ g ∈ s.levels, g.length < b) (xs ys : List A) :
    top b node (feedAll b node s xs).levels (feedAll b node s xs).crown ys =
      top b node s.levels s.crown (xs ++ ys) := by
  induction xs generalizing s with
  | nil => rfl
  | cons x xs ih => exact (ih (feed_short (by omega) short x)).trans (top_feed two short x (xs ++ ys))

end Hoverfly.Lib.Cascade
