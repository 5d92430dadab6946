import FactFold.Proofs.Script.Simulation
import FactFold.Proofs.Script.Stack.Boundaries
import FactFold.Proofs.Script.Stack.Heights

namespace FactFold.Script

variable {m : Machine} {code code' first second : List Op} {a b d room room' : Nat}
  {marked marked' marks marks' : List (Nat × Op)}

theorem Balanced.mono (h : Balanced m code a b room marked) (hroom : room ≤ room') :
    Balanced m code a b room' marked :=
  ⟨h.code, h.first, h.checked.mono hroom⟩

theorem Balanced.append (h : Balanced m code a b room marked) (h' : Balanced m code' b d room marked') :
    Balanced m (code ++ code') a d room (marked ++ marked') where
  code := by rw [List.map_append, h.code, h'.code]
  first := heights_stay h'.first h.first
  checked := h.checked.append h'.checked h'.first

theorem Balanced.length (h : Balanced m code a b room marked) : marked.length = code.length := by
  rw [← h.code, List.length_map]

theorem balanced_nil : Balanced m [] a a room [] :=
  ⟨rfl, rfl, trivial⟩

theorem balanced_op {op : Op} (hknown : op.Known m) (htakes : op.takes ≤ a)
    (hgives : a + op.gives ≤ room + op.takes)
    (hskips : ∀ skip ∈ op.skips, skip = 0 ∧ b = a + op.gives - op.takes) : Balanced m [op] a b room [(a, op)] where
  code := rfl
  first := rfl
  checked := by
    refine ⟨hknown, htakes, hgives, fun skip hskip => ?_, trivial⟩
    obtain ⟨rfl, hb⟩ := hskips skip hskip
    rw [← hb]
    rfl

def raised (k : Nat) (marked : List (Nat × Op)) : List (Nat × Op) :=
  marked.map fun (height, op) => (k + height, op)

theorem heights_raised (k : Nat) (marked : List (Nat × Op)) (last : Nat) :
    heights (raised k marked) (k + last) = (heights marked last).map (k + ·) := by
  simp [heights, raised, Function.comp_def]

theorem Checked.raise (h : Checked m b room marked) (k : Nat) : Checked m (k + b) (k + room) (raised k marked) := by
  induction marked with
  | nil => exact trivial
  | cons mark marked ih =>
    obtain ⟨height, op⟩ := mark
    obtain ⟨hknown, htakes, hgives, hskips, hrest⟩ := h
    refine ⟨hknown, by omega, by omega, fun skip hskip => ?_, ih hrest⟩
    have hheights := heights_raised k marked b
    rw [raised] at hheights
    rw [hheights, List.getElem?_map, hskips skip hskip, Option.map_some, Option.some.injEq]
    omega

theorem Balanced.raise (h : Balanced m code a b room marked) (k : Nat) :
    Balanced m code (k + a) (k + b) (k + room) (raised k marked) where
  code := by simp [raised, ← h.code, Function.comp_def]
  first := by rw [heights_raised, List.getElem?_map, h.first, Option.map_some]
  checked := h.checked.raise k

theorem Balanced.branch (test : Balanced m code 0 1 room marked) (one : Balanced m first 0 0 room marks)
    {toEnd : UInt16} (jump : toEnd.toNat = first.length) :
    Balanced m (code ++ Op.jumpIfFalse toEnd :: first) 0 0 room (marked ++ (1, .jumpIfFalse toEnd) :: marks) where
  code := by simp [test.code, one.code]
  first := heights_stay rfl test.first
  checked := by
    have hlength := one.length
    apply test.checked.append _ rfl
    refine ⟨trivial, Nat.le_refl 1, Nat.le_add_left 1 room, fun skip hskip => ?_, one.checked⟩
    rcases List.mem_pair.mp hskip with rfl | rfl
    · exact one.first
    · rw [jump, ← hlength]
      exact heights_end marks 0

theorem Balanced.choice (test : Balanced m code 0 1 room marked) (one : Balanced m first 0 b room marks)
    (two : Balanced m second 0 b room marks') (hroom : b ≤ room) {toNo toEnd : UInt16}
    (jump : toNo.toNat = first.length + 1) (jump' : toEnd.toNat = second.length) :
    Balanced m (code ++ Op.jumpIfFalse toNo :: first ++ Op.jump toEnd :: second) 0 b room
      (marked ++ (1, .jumpIfFalse toNo) :: (marks ++ (b, .jump toEnd) :: marks')) where
  code := by simp [test.code, one.code, two.code]
  first := heights_stay rfl test.first
  checked := by
    have hone := one.length
    have htwo := two.length
    apply test.checked.append _ rfl
    refine ⟨trivial, Nat.le_refl 1, Nat.le_add_left 1 room, fun skip hskip => ?_, one.checked.append ?_ rfl⟩
    · rcases List.mem_pair.mp hskip with rfl | rfl
      · exact heights_stay rfl one.first
      · rw [jump, ← hone, heights_over]
        exact two.first
    · refine ⟨trivial, Nat.zero_le b, hroom, fun skip hskip => ?_, two.checked⟩
      rw [List.mem_singleton.mp hskip, jump', ← htwo]
      exact heights_end marks' b

def truthMarks (yes no : UInt16) : List (Nat × Op) :=
  [(1, .jumpIfFalse 2), (0, .literal yes), (1, .jump 1), (0, .literal no)]

theorem checked_truth {yes no : UInt16} (hyes : yes.toNat < m.tables.literals.length)
    (hno : no.toNat < m.tables.literals.length) (hroom : 1 ≤ room) : Checked m 1 room (truthMarks yes no) := by
  have hjump : ∀ skip ∈ (Op.jumpIfFalse 2).skips,
      (heights [(0, .literal yes), (1, .jump 1), (0, .literal no)] 1)[skip]? = some 0 := by
    intro skip hskip
    rcases List.mem_pair.mp hskip with rfl | rfl <;> rfl
  refine ⟨trivial, Nat.le_refl 1, Nat.le_add_left 1 room, hjump, hyes, Nat.zero_le 0, hroom, ?_,
    trivial, Nat.zero_le 1, hroom, ?_, hno, Nat.zero_le 0, hroom, ?_, trivial⟩
  all_goals
    intro skip hskip
    rw [List.mem_singleton.mp hskip]
    rfl

theorem Balanced.and (one : Balanced m first 0 1 room marked) (two : Balanced m second 0 1 room marks)
    {toNo yes no : UInt16} (jump : toNo.toNat = second.length + 3) (hyes : yes.toNat < m.tables.literals.length)
    (hno : no.toNat < m.tables.literals.length) (hroom : 1 ≤ room) :
    Balanced m
      (first ++ Op.jumpIfFalse toNo :: second ++ Op.jumpIfFalse 2 :: [.literal yes] ++ Op.jump 1 :: [.literal no])
      0 1 room
      (marked ++ (1, .jumpIfFalse toNo) :: (marks ++ truthMarks yes no)) where
  code := by simp [one.code, two.code, truthMarks]
  first := heights_stay rfl one.first
  checked := by
    have hlength := two.length
    have htruth := checked_truth hyes hno hroom
    apply one.checked.append _ rfl
    refine ⟨trivial, Nat.le_refl 1, Nat.le_add_left 1 room, fun skip hskip => ?_, two.checked.append htruth rfl⟩
    rcases List.mem_pair.mp hskip with rfl | rfl
    · exact heights_stay rfl two.first
    · rw [jump, ← hlength, heights_over]
      rfl

theorem Balanced.or (one : Balanced m first 0 1 room marked) (two : Balanced m second 0 1 room marks)
    {toEnd yes yes' no : UInt16} (jump : toEnd.toNat = second.length + 4)
    (hyes : yes.toNat < m.tables.literals.length) (hyes' : yes'.toNat < m.tables.literals.length)
    (hno : no.toNat < m.tables.literals.length) (hroom : 1 ≤ room) :
    Balanced m
      (first ++ Op.jumpIfFalse 2 :: [.literal yes] ++ Op.jump toEnd :: second ++ Op.jumpIfFalse 2 :: [.literal yes']
        ++ Op.jump 1 :: [.literal no]) 0 1 room
      (marked ++ (1, .jumpIfFalse 2) :: (0, .literal yes) :: (1, .jump toEnd) :: (marks ++ truthMarks yes' no)) where
  code := by simp [one.code, two.code, truthMarks]
  first := heights_stay rfl one.first
  checked := by
    have hlength := two.length
    have htruth := checked_truth hyes' hno hroom
    apply one.checked.append _ rfl
    refine ⟨trivial, Nat.le_refl 1, Nat.le_add_left 1 room, ?_, hyes, Nat.zero_le 0, hroom, ?_,
      trivial, Nat.zero_le 1, hroom, ?_, two.checked.append htruth rfl⟩
    · intro skip hskip
      rcases List.mem_pair.mp hskip with rfl | rfl
      · rfl
      · exact heights_stay rfl two.first
    · intro skip hskip
      rw [List.mem_singleton.mp hskip]
      rfl
    · intro skip hskip
      rw [List.mem_singleton.mp hskip, jump, ← hlength, heights_over]
      rfl

section

variable {c : Compiler} {declared : List String}

theorem lt_of_getElem? {α : Type} {table : List α} {i : Nat} {x : α} (h : table[i]? = some x) :
    i < table.length :=
  (List.getElem?_eq_some_iff.mp h).1

theorem Denotes.lt {table : List Value} {v : Value} {i : UInt16} (h : Denotes table v i) :
    i.toNat < table.length := by
  obtain ⟨entry, he, -⟩ := h.exists_entry
  exact lt_of_getElem? he

theorem Linked.length {functions : List String} {natives : List Native} (h : Linked c functions natives) :
    functions.length = natives.length := by
  simpa using congrArg List.length h

theorem balanced_push {op : Op} (hknown : op.Known m) (htakes : op.takes = 0) (hgives : op.gives = 1)
    (hskips : op.skips = [0]) (hroom : 1 ≤ room) : Balanced m [op] 0 1 room [(0, op)] := by
  apply balanced_op hknown
  · omega
  · omega
  · intro skip hskip
    rw [hskips, List.mem_singleton] at hskip
    exact ⟨hskip, by omega⟩

theorem balanced_literal {i : UInt16} (h : i.toNat < m.tables.literals.length) :
    Balanced m [.literal i] 0 1 1 [(0, .literal i)] :=
  balanced_push h rfl rfl rfl (Nat.le_refl 1)

theorem balanced_name {name : String} (h : NameCode c m.tables declared name code) :
    ∃ marked, Balanced m code 0 1 1 marked := by
  cases h with
  | slot input => exact ⟨_, balanced_push trivial rfl rfl rfl (Nat.le_refl 1)⟩
  | constant input fresh constant index => exact ⟨_, balanced_literal index.lt⟩
  | frame input kept known index => exact ⟨_, balanced_push (lt_of_getElem? index) rfl rfl rfl (Nat.le_refl 1)⟩

theorem balanced_top {op : Op} (hknown : op.Known m) (htakes : op.takes = 1)
    (hskips : ∀ skip ∈ op.skips, skip = 0) (hgives : op.gives ≤ room) :
    Balanced m [op] 1 op.gives room [(1, op)] := by
  apply balanced_op hknown
  · omega
  · omega
  · exact fun skip hskip => ⟨hskips skip hskip, by omega⟩

theorem balanced_discard : Balanced m [.discard] 1 0 room [(1, .discard)] :=
  balanced_top trivial rfl (fun _ hskip => List.mem_singleton.mp hskip) (Nat.zero_le room)

theorem balanced_ret : Balanced m [.ret] 1 0 room [(1, .ret)] :=
  balanced_top trivial rfl nofun (Nat.zero_le room)

theorem balanced_strict (op : StrictOp) : Balanced m [.strict op] 2 1 1 [(2, .strict op)] := by
  have hknown : (Op.strict op).Known m := trivial
  apply balanced_op hknown (Nat.le_refl 2) (Nat.le_refl 3)
  exact fun skip hskip => ⟨List.mem_singleton.mp hskip, rfl⟩

theorem Balanced.apply (h : Balanced m code 0 1 room marked) {op : Op} (hknown : op.Known m) (htakes : op.takes = 1)
    (hgives : op.gives = 1) (hskips : op.skips = [0]) (hroom : 1 ≤ room) :
    Balanced m (code ++ [op]) 0 1 room (marked ++ [(1, op)]) := by
  have hop : Balanced m [op] 1 op.gives room [(1, op)] :=
    balanced_top hknown htakes (by simp [hskips]) (hgives.trans_le hroom)
  rw [hgives] at hop
  exact h.append hop

mutual

theorem balanced_expr {c : Compiler} {m : Machine} {declared : List String} {e : Expr} {code : List Op}
    (hl : Linked c m.tables.functions m.natives) (h : ExprCode c m.tables declared e code) :
    ∃ marked, Balanced m code 0 1 e.depth marked := by
  cases h with
  | literal index => exact ⟨_, balanced_literal index.lt⟩
  | name load => exact balanced_name load
  | @constantPath object name span v i constant index =>
    exact ⟨_, (balanced_literal index.lt).mono object.depth_pos⟩
  | @field object name span code i computed value index =>
    obtain ⟨marked, hvalue⟩ := balanced_expr hl value
    exact ⟨_, hvalue.apply (lt_of_getElem? index) rfl rfl rfl object.depth_pos⟩
  | @call function args span native code i known few values index =>
    obtain ⟨marked, hvalues⟩ := balanced_args hl values
    have harity : (Op.call i (UInt8.ofNat args.length)).takes = args.length := UInt8.toNat_ofNat_of_lt few
    have hgives : (Op.call i (UInt8.ofNat args.length)).gives = 1 := rfl
    have hknown := lt_of_getElem? index
    have hcall : Balanced m [.call i (UInt8.ofNat args.length)] args.length 1 1
        [(args.length, .call i (UInt8.ofNat args.length))] := by
      refine balanced_op ⟨hknown, hl.length ▸ hknown⟩ harity.le ?_ fun skip hskip => ?_
      · rw [harity, hgives]
        exact (Nat.add_comm ..).le
      · rw [harity, hgives]
        exact ⟨List.mem_singleton.mp hskip, (Nat.add_sub_cancel_left ..).symm⟩
    exact ⟨_, (hvalues.mono (Nat.le_max_right ..)).append (hcall.mono (Nat.le_max_left ..))⟩
  | @unary op operand span code value =>
    obtain ⟨marked, hvalue⟩ := balanced_expr hl value
    exact ⟨_, hvalue.apply trivial rfl rfl rfl operand.depth_pos⟩
  | @strict op left right span first second one two =>
    obtain ⟨marked, hone⟩ := balanced_expr hl one
    obtain ⟨marks, htwo⟩ := balanced_expr hl two
    have hop := balanced_strict (m := m) op
    have hdepth : (Expr.binary (.strict op) left right span).depth = max left.depth (1 + right.depth) := rfl
    exact ⟨_, ((hone.mono (by omega)).append ((htwo.raise 1).mono (by omega))).append (hop.mono (by omega))⟩
  | @and left right span first second toNo yes no one two jump yesIndex noIndex =>
    obtain ⟨marked, hone⟩ := balanced_expr hl one
    obtain ⟨marks, htwo⟩ := balanced_expr hl two
    have hroom := left.depth_pos.trans_le (Nat.le_max_left left.depth right.depth)
    exact ⟨_, (hone.mono (Nat.le_max_left ..)).and (htwo.mono (Nat.le_max_right ..)) jump yesIndex.lt noIndex.lt
      hroom⟩
  | @or left right span first second toEnd yes yes' no one two jump yesIndex yesIndex' noIndex =>
    obtain ⟨marked, hone⟩ := balanced_expr hl one
    obtain ⟨marks, htwo⟩ := balanced_expr hl two
    have hroom := left.depth_pos.trans_le (Nat.le_max_left left.depth right.depth)
    exact ⟨_, (hone.mono (Nat.le_max_left ..)).or (htwo.mono (Nat.le_max_right ..)) jump yesIndex.lt yesIndex'.lt
      noIndex.lt hroom⟩
  | @conditional condition yes no span test first second toNo toEnd value one two jump jump' =>
    obtain ⟨marked, hvalue⟩ := balanced_expr hl value
    obtain ⟨marks, hone⟩ := balanced_expr hl one
    obtain ⟨marks', htwo⟩ := balanced_expr hl two
    have hpos := condition.depth_pos
    have hdepth : (Expr.conditional condition yes no span).depth = max condition.depth (max yes.depth no.depth) := rfl
    exact ⟨_, (hvalue.mono (by omega)).choice (hone.mono (by omega)) (htwo.mono (by omega)) (by omega) jump jump'⟩
termination_by structural e

theorem balanced_args {c : Compiler} {m : Machine} {declared : List String} {es : List Expr} {code : List Op}
    (hl : Linked c m.tables.functions m.natives) (h : ArgCode c m.tables declared es code) :
    ∃ marked, Balanced m code 0 es.length (argDepth es) marked := by
  cases h with
  | nil => exact ⟨_, balanced_nil⟩
  | cons value values =>
    obtain ⟨marked, hvalue⟩ := balanced_expr hl value
    obtain ⟨marks, hvalues⟩ := balanced_args hl values
    rw [List.length_cons, Nat.add_comm]
    exact ⟨_, (hvalue.mono (Nat.le_max_left ..)).append ((hvalues.raise 1).mono (Nat.le_max_right ..))⟩
termination_by structural es

end

theorem balanced_initial {value : Option Expr} (hl : Linked c m.tables.functions m.natives)
    (h : InitialCode c m.tables declared value code) :
    ∃ marked, Balanced m code 0 1 (initialDepth value) marked := by
  cases h with
  | value value => exact balanced_expr hl value
  | null index => exact ⟨_, balanced_literal index.lt⟩

theorem balanced_write {name : String} (h : WriteCode c m.tables name code) :
    ∃ marked, Balanced m (code ++ [Op.discard]) 1 0 1 marked := by
  have hdiscard : Balanced m [.discard] 1 0 1 [(1, .discard)] := balanced_discard
  have htop (op : Op) (hknown : op.Known m) (htakes : op.takes = 1) (hgives : op.gives = 1)
      (hskips : op.skips = [0]) : Balanced m [op] 1 1 1 [(1, op)] := by
    have h : Balanced m [op] 1 op.gives 1 [(1, op)] := balanced_top hknown htakes (by simp [hskips]) hgives.le
    rwa [hgives] at h
  cases h with
  | slot input free => exact ⟨_, (htop (.storeSlot _) trivial rfl rfl rfl).append hdiscard⟩
  | typedSlot input typed index =>
    have hcheck := htop (.checkType _) (lt_of_getElem? index) rfl rfl rfl
    exact ⟨_, (hcheck.append (htop (.storeSlot _) trivial rfl rfl rfl)).append hdiscard⟩
  | frame input index => exact ⟨_, (htop (.storeName _) (lt_of_getElem? index) rfl rfl rfl).append hdiscard⟩

theorem balanced_declare {type : Option String} {i : UInt16} {k : Option UInt16} {name : String}
    (checked : TypeIndex c m.tables type k) (index : m.tables.names[i.toNat]? = some name) :
    Balanced m [.declare i k] 1 0 room [(1, .declare i k)] := by
  have hknown : (Op.declare i k).Known m := by
    cases checked with
    | untyped => exact lt_of_getElem? index
    | typed known index' => exact ⟨lt_of_getElem? index, lt_of_getElem? index'⟩
  exact balanced_top hknown rfl (fun _ hskip => List.mem_singleton.mp hskip) (Nat.zero_le room)

def Level (m : Machine) (code : List Op) (room : Nat) (boundary : Nat → Prop) : Prop :=
  ∃ marked, Balanced m code 0 0 room marked ∧ ∀ n, boundary n → (heights marked 0)[n]? = some 0

theorem Balanced.level (h : Balanced m code 0 0 room marked) {s : Stmt} (hs : ∀ n, ¬Inner c declared s n) :
    Level m code room (Inner c declared s) :=
  ⟨marked, h, fun n hn => (hs n hn).elim⟩

theorem heights_next (mark : Nat × Op) (marked : List (Nat × Op)) (last k : Nat) :
    (heights (mark :: marked) last)[1 + k]? = (heights marked last)[k]? := by
  rw [Nat.add_comm]
  rfl

mutual

theorem level_stmt {c : Compiler} {m : Machine} {declared : List String} {s : Stmt} {code : List Op}
    (hl : Linked c m.tables.functions m.natives) (h : StmtCode c m.tables declared s code) :
    Level m code s.depth (Inner c declared s) := by
  cases h with
  | expr value =>
    obtain ⟨marked, hvalue⟩ := balanced_expr hl value
    exact (hvalue.append balanced_discard).level nofun
  | @set declared target value span code write right store =>
    obtain ⟨marked, hvalue⟩ := balanced_expr hl right
    obtain ⟨marks, hwrite⟩ := balanced_write store
    rw [List.append_assoc]
    exact (hvalue.append (hwrite.mono value.depth_pos)).level nofun
  | @update declared target op value span old code write load right store =>
    obtain ⟨marked, hold⟩ := balanced_name load
    obtain ⟨marks, hvalue⟩ := balanced_expr hl right
    obtain ⟨marks', hwrite⟩ := balanced_write store
    have hcode : old ++ code ++ Op.strict (.arith op) :: write ++ [Op.discard] =
        old ++ code ++ [Op.strict (.arith op)] ++ (write ++ [Op.discard]) := by
      simp
    have hdepth : (Stmt.assign target (.update op) value span).depth = 1 + value.depth := rfl
    have hop : Balanced m [.strict (.arith op)] 2 1 (1 + value.depth) _ :=
      (balanced_strict (.arith op)).mono (Nat.le_add_right ..)
    rw [hcode]
    have hnew := ((hold.mono (by omega)).append (hvalue.raise 1)).append hop
    exact (hnew.append (hwrite.mono (by omega))).level nofun
  | declare right checked index =>
    obtain ⟨marked, hvalue⟩ := balanced_initial hl right
    exact (hvalue.append (balanced_declare checked index)).level nofun
  | @branch declared condition yes test first toEnd value one jump =>
    obtain ⟨marked, hvalue⟩ := balanced_expr hl value
    obtain ⟨marks, hone, hboundary⟩ := level_block hl one
    refine ⟨_, (hvalue.mono (Nat.le_max_left ..)).branch (hone.mono (Nat.le_max_right ..)) jump, fun n hn => ?_⟩
    cases hn with
    | yes inner =>
      rw [← value.length, ← hvalue.length, Nat.add_assoc, heights_over, heights_next]
      exact hboundary _ inner
  | @branchElse declared condition yes no test first second toNo toEnd value one two jump jump' =>
    obtain ⟨marked, hvalue⟩ := balanced_expr hl value
    obtain ⟨marks, hone, hyes⟩ := level_block hl one
    obtain ⟨marks', htwo, hno⟩ := level_block hl two
    have hdepth : (Stmt.branch condition yes (some no)).depth =
        max condition.depth (max (blockDepth yes) (blockDepth no)) := rfl
    refine ⟨_, (hvalue.mono (by omega)).choice (hone.mono (by omega)) (htwo.mono (by omega)) (Nat.zero_le _) jump
      jump', fun n hn => ?_⟩
    rw [← Nat.add_zero 0]
    cases hn with
    | yes inner =>
      rw [← value.length, ← hvalue.length, Nat.add_assoc, heights_over, heights_next]
      exact heights_stay rfl (hyes _ inner)
    | no inner =>
      rw [← value.length, ← hvalue.length, ← one.length, ← hone.length, Nat.add_assoc, Nat.add_assoc,
        Nat.add_assoc, heights_over, heights_next, heights_over, heights_next]
      exact hno _ inner
  | ret right =>
    obtain ⟨marked, hvalue⟩ := balanced_expr hl right
    exact (hvalue.append balanced_ret).level nofun
  | halt =>
    have hhalt : Balanced m [.halt] 0 0 0 [(0, .halt)] := balanced_op trivial (Nat.le_refl 0) (Nat.le_refl 0) nofun
    exact hhalt.level nofun
termination_by structural s

theorem level_block {c : Compiler} {m : Machine} {declared : List String} {ss : List Stmt} {code : List Op}
    (hl : Linked c m.tables.functions m.natives) (h : BlockCode c m.tables declared ss code) :
    Level m code (blockDepth ss) (Boundary c declared ss) := by
  cases h with
  | nil =>
    refine ⟨[], balanced_nil, fun n hn => ?_⟩
    cases hn
    rfl
  | @cons declared s rest first others one more =>
    obtain ⟨marked, hone, hinner⟩ := level_stmt hl one
    obtain ⟨marks, hmore, hboundary⟩ := level_block hl more
    have hall := (hone.mono (Nat.le_max_left s.depth (blockDepth rest))).append (hmore.mono (Nat.le_max_right ..))
    refine ⟨_, hall, fun n hn => ?_⟩
    cases hn with
    | start => exact hall.first
    | inside inner => exact heights_stay hmore.first (hinner _ inner)
    | behind more =>
      rw [← one.length, ← hone.length, heights_over]
      exact hboundary _ more
termination_by structural ss

end

end

end FactFold.Script
