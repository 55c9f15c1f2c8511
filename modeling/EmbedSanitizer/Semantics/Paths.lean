import EmbedSanitizer.IR.Inst

/-!
# Paths through a function

The control flow of a function whose instructions carry a flag, set on those the pass
created. A path starts at the first instruction of the entry block. From an instruction it goes
to the next one of its block, unless the instruction is a terminator, or along a branch, or
along the unwind edge of an invoke, to the first instruction of a block. It leaves the function
at a `ret` or a `resume`, or when a call that is not an invoke throws in a function that may
throw. Along a path we record the calls the pass created, in the order they run.

`leaves_probes` is the law behind the entry and exit probes: if the entry block starts with
the opening instructions `O`, and every block is a run of body instructions, ended, when it
ends the function, by the closing instructions `E` in front of its `ret` or `resume`, and no
body instruction leads back to the entry block or escapes otherwise, then every path that
leaves the function runs the calls of `O`, then those of body instructions only, then those
of `E`.
-/

namespace EmbedSanitizer

variable {α : Type}

/-- The blocks of a function, each instruction flagged when the pass created it. -/
abbrev Code (α : Type) := List (List (Inst α × Bool))

/-- The instruction at a position. -/
def Code.at (C : Code α) (p : Pos) : Option (Inst α × Bool) :=
  C[p.1]? >>= (·[p.2]?)

namespace Inst

/-- Whether control may go on to the next instruction of the block. -/
def fallsThrough : Inst α → Bool
  | .ret | .resume | .br _ | .unreachable => false
  | _ => true

/-- The blocks control may go to: the successors of a branch, the landing pad of an invoke. -/
def successors : Inst α → List Nat
  | .br succs => succs
  | .call _ _ (some u) => [u]
  | _ => []

/-- A `ret` or a `resume`. -/
def isExit : Inst α → Bool
  | .ret | .resume => true
  | _ => false

/-- A call, not an invoke, that may throw. -/
def mayThrowCall : Inst α → Bool
  | .call _ false none => true
  | _ => false

end Inst

/-- The call an instruction records on a path: its own, if the pass created it. -/
def probeOf : Inst α × Bool → List (Call α)
  | (.call c _ _, true) => [c]
  | _ => []

@[simp] theorem probeOf_false (I : Inst α) : probeOf (I, false) = [] := by
  cases I <;> rfl

/-- A `ret` or a `resume` ends the path: nothing follows it, and it calls nothing. -/
theorem Inst.isExit_spec {x : Inst α × Bool} (h : x.1.isExit = true) :
    x.1.fallsThrough = false ∧ x.1.successors = [] ∧ x.1.mayThrowCall = false ∧ probeOf x = [] := by
  obtain ⟨I, b⟩ := x
  cases I <;> simp_all [Inst.isExit, Inst.fallsThrough, Inst.successors, Inst.mayThrowCall, probeOf]

theorem Code.drop_of_at {C : Code α} {p : Pos} {x : Inst α × Bool} {blk : List (Inst α × Bool)}
    (hat : C.at p = some x) (hblk : C[p.1]? = some blk) :
    blk.drop p.2 = x :: blk.drop (p.2 + 1) := by
  simp only [Code.at, hblk, Option.bind_some] at hat
  obtain ⟨hlt, rfl⟩ := List.getElem?_eq_some_iff.1 hat
  exact List.drop_eq_getElem_cons hlt

/-- The positions a path from the entry reaches, with the calls of the pass it has run. -/
inductive Reaches (C : Code α) : Pos → List (Call α) → Prop
  | entry : Reaches C (0, 0) []
  | next {p t x} : Reaches C p t → C.at p = some x → x.1.fallsThrough = true →
      Reaches C (p.1, p.2 + 1) (t ++ probeOf x)
  | jump {p t x b} : Reaches C p t → C.at p = some x → b ∈ x.1.successors →
      Reaches C (b, 0) (t ++ probeOf x)

/-- The calls of the pass a path runs until it leaves the function. -/
inductive Leaves (C : Code α) (mayThrow : Bool) : List (Call α) → Prop
  | exit {p t x} : Reaches C p t → C.at p = some x → x.1.isExit = true →
      Leaves C mayThrow (t ++ probeOf x)
  | throw {p t x} : Reaches C p t → C.at p = some x → x.1.mayThrowCall = true →
      mayThrow = true → Leaves C mayThrow (t ++ probeOf x)

/-! ### Blocks of body instructions -/

section Shape

variable (Body : Inst α × Bool → Prop) (O E : List (Inst α × Bool)) (mayThrow : Bool)

/-- What remains of a block: body instructions, then, if the block leaves the function, the
closing instructions `E` and the `ret` or `resume`. -/
def Rest (r : List (Inst α × Bool)) : Prop :=
  ∃ body tail, r = body ++ tail ∧ (∀ x ∈ body, Body x) ∧
    (tail = [] ∨ ∃ x, x.1.isExit = true ∧ tail = E ++ [x])

theorem Rest.append {xs r : List (Inst α × Bool)} (hxs : ∀ x ∈ xs, Body x)
    (hr : Rest Body E r) : Rest Body E (xs ++ r) := by
  obtain ⟨body, tail, rfl, hbody, htail⟩ := hr
  refine ⟨xs ++ body, tail, by simp, fun x hx => ?_, htail⟩
  rcases List.mem_append.1 hx with hx | hx
  exacts [hxs x hx, hbody x hx]

/-- How far a path has come through its block, given what remains of the block, and the calls
it has run so far: in the opening instructions, among body instructions, or in the closing
instructions in front of an exit. -/
def Progress (t : List (Call α)) (r : List (Inst α × Bool)) : Prop :=
  (∃ j r', j < O.length ∧ r = O.drop j ++ r' ∧ Rest Body E r' ∧
      t = (O.take j).flatMap probeOf) ∨
    (∃ xs : List (Inst α × Bool), (∀ x ∈ xs, Body x) ∧ Rest Body E r ∧
      t = O.flatMap probeOf ++ xs.flatMap probeOf) ∨
    (∃ (xs : List (Inst α × Bool)) (k : Nat) (x : Inst α × Bool), (∀ x ∈ xs, Body x) ∧
      k ≤ E.length ∧ x.1.isExit = true ∧ r = E.drop k ++ [x] ∧
      t = O.flatMap probeOf ++ xs.flatMap probeOf ++ (E.take k).flatMap probeOf)

/-- The instructions a path runs through without choice: they fall through to the next
instruction, and neither branch, leave nor throw. -/
def Straight (x : Inst α × Bool) : Prop :=
  x.1.fallsThrough = true ∧ x.1.successors = [] ∧ x.1.isExit = false ∧ x.1.mayThrowCall = false

/-- The shape of the code: the entry block opens with `O`, every block is a run of body
instructions that, when it leaves the function, ends with `E` in front of its exit, and a body
instruction does not leave the function, lead back to the entry block, or throw out of it. -/
structure Shaped (C : Code α) : Prop where
  entry : ∀ blk, C[0]? = some blk → ∃ r, blk = O ++ r ∧ Rest Body E r
  block : ∀ b blk, b ≠ 0 → C[b]? = some blk → Rest Body E blk
  opening : ∀ x ∈ O, Straight x
  closing : ∀ x ∈ E, Straight x
  body_exit : ∀ x, Body x → x.1.isExit = false
  body_entry : ∀ x, Body x → 0 ∉ x.1.successors
  body_throw : ∀ x, Body x → mayThrow = true → x.1.mayThrowCall = false

variable {Body O E mayThrow} {C : Code α}

theorem progress_body {t : List (Call α)} {r : List (Inst α × Bool)} (xs : List (Inst α × Bool))
    (hxs : ∀ x ∈ xs, Body x) (hr : Rest Body E r)
    (ht : t = O.flatMap probeOf ++ xs.flatMap probeOf) : Progress Body O E t r :=
  Or.inr (Or.inl ⟨xs, hxs, hr, ht⟩)

/-- The closing instructions from the `k`-th on, then the exit. -/
theorem progress_closing (hC : Shaped Body O E mayThrow C) {t : List (Call α)} {x}
    {rest : List (Inst α × Bool)} {xs : List (Inst α × Bool)} {k : Nat} {y : Inst α × Bool}
    (hxs : ∀ x ∈ xs, Body x) (hy : y.1.isExit = true) (hr : x :: rest = E.drop k ++ [y])
    (ht : t = O.flatMap probeOf ++ xs.flatMap probeOf ++ (E.take k).flatMap probeOf) :
    (Straight x ∧ Progress Body O E (t ++ probeOf x) rest) ∨
      (x.1.isExit = true ∧ t = O.flatMap probeOf ++ xs.flatMap probeOf ++ E.flatMap probeOf) := by
  rcases Nat.lt_or_ge k E.length with hk' | hk'
  · -- the `k`-th closing instruction
    rw [List.drop_eq_getElem_cons hk', List.cons_append, List.cons.injEq] at hr
    obtain ⟨rfl, rfl⟩ := hr
    refine .inl ⟨hC.closing _ (List.getElem_mem _),
      Or.inr (Or.inr ⟨xs, k + 1, y, hxs, hk', hy, rfl, ?_⟩)⟩
    rw [ht, List.take_succ, List.getElem?_eq_getElem hk']
    simp only [Option.toList_some, List.flatMap_append, List.flatMap_cons, List.flatMap_nil,
      List.append_nil, List.append_assoc]
  · -- the exit
    rw [List.drop_of_length_le hk', List.nil_append] at hr
    obtain ⟨rfl, -⟩ := List.cons.inj hr
    exact .inr ⟨hy, by rw [ht, List.take_of_length_le hk']⟩

/-- What the next instruction of a block is to a path: one it runs through without choice, a
body instruction, or the exit after all closing instructions. -/
theorem progress_cases (hC : Shaped Body O E mayThrow C) {t : List (Call α)} {x}
    {rest : List (Inst α × Bool)} (h : Progress Body O E t (x :: rest)) :
    (Straight x ∧ Progress Body O E (t ++ probeOf x) rest) ∨
      (Body x ∧ Rest Body E rest ∧ ∃ xs : List (Inst α × Bool), (∀ y ∈ xs, Body y) ∧
        t = O.flatMap probeOf ++ xs.flatMap probeOf) ∨
      (x.1.isExit = true ∧ ∃ xs : List (Inst α × Bool), (∀ y ∈ xs, Body y) ∧
        t = O.flatMap probeOf ++ xs.flatMap probeOf ++ E.flatMap probeOf) := by
  rcases h with ⟨j, r', hj, hr, hr', ht⟩ | ⟨xs, hxs, ⟨body, tail, hr, hbody, htail⟩, ht⟩ |
    ⟨xs, k, y, hxs, hk, hy, hr, ht⟩
  · -- the `j`-th opening instruction
    rw [List.drop_eq_getElem_cons hj, List.cons_append, List.cons.injEq] at hr
    obtain ⟨rfl, rfl⟩ := hr
    refine .inl ⟨hC.opening _ (List.getElem_mem _), ?_⟩
    have ht' : t ++ probeOf O[j] = (O.take (j + 1)).flatMap probeOf := by
      rw [ht, List.take_succ, List.getElem?_eq_getElem hj]
      simp only [Option.toList_some, List.flatMap_append, List.flatMap_cons, List.flatMap_nil,
        List.append_nil]
    rcases Nat.lt_or_ge (j + 1) O.length with hj' | hj'
    · exact Or.inl ⟨j + 1, r', hj', rfl, hr', ht'⟩
    · rw [List.drop_of_length_le hj', List.nil_append]
      exact progress_body [] (by simp) hr' (by rw [ht', List.take_of_length_le hj']; simp)
  · cases body with
    | nil =>
      -- no body instruction is left: the closing instructions, or nothing
      rcases htail with rfl | ⟨y, hy, rfl⟩
      · simp at hr
      · rcases progress_closing hC hxs hy (show _ = E.drop 0 ++ [y] by simpa using hr)
          (by simpa using ht) with h | ⟨hx, ht'⟩
        · exact .inl h
        · exact .inr (.inr ⟨hx, xs, hxs, ht'⟩)
    | cons z body =>
      -- a body instruction
      obtain ⟨rfl, rfl⟩ := List.cons.inj hr
      exact .inr (.inl ⟨hbody _ (List.mem_cons_self _ _), ⟨body, tail, rfl,
        fun y hy => hbody y (List.mem_cons_of_mem _ hy), htail⟩, xs, hxs, ht⟩)
  · rcases progress_closing hC hxs hy hr ht with h | ⟨hx, ht'⟩
    · exact .inl h
    · exact .inr (.inr ⟨hx, xs, hxs, ht'⟩)

/-- Every position a path reaches is at some progress through its block. -/
theorem Reaches.progress (hC : Shaped Body O E mayThrow C) {p : Pos} {t : List (Call α)}
    (h : Reaches C p t) : ∀ blk, C[p.1]? = some blk → Progress Body O E t (blk.drop p.2) := by
  induction h with
  | entry =>
    intro blk hblk
    obtain ⟨r, rfl, hr⟩ := hC.entry blk hblk
    by_cases hO : O = []
    · exact progress_body [] (by simp) (by simpa [hO] using hr) (by simp [hO])
    · exact Or.inl ⟨0, r, List.length_pos.2 hO, rfl, hr, rfl⟩
  | next _ hat hfall ih =>
    intro blk hblk
    rcases progress_cases hC (Code.drop_of_at hat hblk ▸ ih blk hblk) with
      ⟨-, hp⟩ | ⟨hx, hr, xs, hxs, rfl⟩ | ⟨hx, -⟩
    · exact hp
    · -- a body instruction that falls through
      exact progress_body (xs ++ [_]) (List.forall_mem_append.2 ⟨hxs, List.forall_mem_singleton.2 hx⟩)
        hr (by simp)
    · simp [(Inst.isExit_spec hx).1] at hfall
  | @jump p t x b _ hat hsucc ih =>
    obtain ⟨blk, hblk, -⟩ := Option.bind_eq_some.1 hat
    intro blk' hblk'
    rcases progress_cases hC (Code.drop_of_at hat hblk ▸ ih blk hblk) with
      ⟨hs, -⟩ | ⟨hx, -, xs, hxs, rfl⟩ | ⟨hx, -⟩
    · simp [hs.2.1] at hsucc
    · -- a branch or an unwind edge from a body instruction, to a block other than the entry
      have hb : b ≠ 0 := fun hb => hC.body_entry x hx (hb ▸ hsucc)
      exact progress_body (xs ++ [x]) (List.forall_mem_append.2 ⟨hxs, List.forall_mem_singleton.2 hx⟩)
        (by simpa using hC.block b blk' hb hblk') (by simp)
    · simp [(Inst.isExit_spec hx).2.1] at hsucc

/-- Every path that leaves the function runs the calls of the opening instructions, then those
of body instructions, then those of the closing instructions. -/
theorem leaves_probes (hC : Shaped Body O E mayThrow C) {t : List (Call α)}
    (h : Leaves C mayThrow t) : ∃ xs : List (Inst α × Bool), (∀ x ∈ xs, Body x) ∧
      t = O.flatMap probeOf ++ xs.flatMap probeOf ++ E.flatMap probeOf := by
  rcases h with ⟨hr, hat, hx⟩ | ⟨hr, hat, hx, hm⟩ <;>
    obtain ⟨blk, hblk, -⟩ := Option.bind_eq_some.1 hat <;>
    rcases progress_cases hC (Code.drop_of_at hat hblk ▸ hr.progress hC blk hblk) with
      ⟨hs, -⟩ | ⟨hb, -⟩ | ⟨he, xs, hxs, rfl⟩
  · simp [hs.2.2.1] at hx
  · simp [hC.body_exit _ hb] at hx
  · exact ⟨xs, hxs, by simp [(Inst.isExit_spec he).2.2.2]⟩
  · simp [hs.2.2.2] at hx
  · simp [hC.body_throw _ hb hm] at hx
  · simp [(Inst.isExit_spec he).2.2.1] at hx

end Shape

end EmbedSanitizer
