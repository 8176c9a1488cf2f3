import Lookahead.Proofs.Reader.Bypass
import Lookahead.Proofs.Reader.Operations

/-!
# Marks that nobody goes back to

A mark decides by which way a reader reads, and it can be overwritten in the middle of an operation.
Nothing of this is seen as long as nobody goes back: marks that are granted can be added to a run or
taken out of it.

* `Sight`, `watch`      what is seen of a run, operation by operation;
* `watch_unmarked`      a run is seen as the same run without its marks;
* `marks_unseen`        so runs are seen as the same that differ in their marks only.
-/

namespace Lookahead

/-- the answers of the feed that are still to come, the bytes pending, and whether the decoder is
closed: all of a decoder but the record of the answers given -/
def Utf8.Decoder.left {ε : Type} {decode : Decode} (d : Decoder ε decode) :
    List (Event ε) × List UInt8 × Bool :=
  (d.feed.ahead, d.pending, d.closed)

namespace Reader

/-- what is seen of an operation: how it went, and what it left in the buffer and in the source -/
structure Sight (ε α : Type) where
  op : Op
  outcome : Outcome ε
  buffered : Nat
  left : α

variable {σ ε α : Type} [Source σ ε]

/-- what is seen of a run, one operation after another -/
def watch (left : σ → α) (rules : Rules) (limit : Nat) : List Op → Reader σ → List (Sight ε α)
  | [], _ => []
  | op :: ops, r =>
    let (o, r) := op.run rules limit r
    ⟨op, o, r.buffered, left r.source⟩ :: watch left rules limit ops r

/-- the operation marks the place, and a reader with `n` slots lets it -/
def Op.marks (n : Nat) : Op → Bool
  | .mark limit => limit ≤ n
  | _ => false

/-- what is seen of a run besides the marks that are let -/
def besides (n : Nat) (sights : List (Sight ε α)) : List (Sight ε α) :=
  sights.filter fun s => !s.op.marks n

theorem watch_cons (left : σ → α) (rules : Rules) (limit : Nat) (op : Op) (ops : List Op)
    (r : Reader σ) :
    watch left rules limit (op :: ops) r =
      ⟨op, (op.run rules limit r).1, (op.run rules limit r).2.buffered,
        left (op.run rules limit r).2.source⟩ :: watch left rules limit ops (op.run rules limit r).2 :=
  rfl

theorem watch_unmarked {E : σ → σ → Prop} (hE : Source.Steady E) {left : σ → α}
    (hleft : ∀ s t, E s t → left s = left t) (rules : Rules) (limit : Nat) {ops : List Op}
    (hops : Op.reset ∉ ops) {r q : Reader σ} (h : Twin E r q) :
    besides r.capacity (watch left rules limit ops r) =
      watch left rules limit (ops.filter fun op => !op.marks r.capacity) q := by
  induction ops generalizing r q with
  | nil => rfl
  | cons op ops ih =>
    have hop : op ≠ .reset := fun e => hops (e ▸ List.mem_cons_self)
    have hrest : Op.reset ∉ ops := fun e => hops (List.mem_cons_of_mem op e)
    have hcap := (op.valid_run (ε := ε) rules limit h.buffer.valid).2
    rw [watch_cons]
    unfold besides at ih ⊢
    by_cases hm : op.marks r.capacity = true
    · rw [List.filter_cons_of_neg (by simp [hm]), List.filter_cons_of_neg (by simp [hm]), ← hcap]
      refine ih hrest ?_
      cases op with
      | mark limit' =>
        have hle : ¬ r.capacity < limit' := Nat.not_lt.2 (of_decide_eq_true hm)
        rw [Op.run_mark, if_neg hle]
        exact ((h.symm hE).withBuffer h.buffer.symm.markHead).symm hE
      | _ => cases hm
    · have hboth := Op.twin hE rules limit hop h
      rw [List.filter_cons_of_pos (by simp [hm]), List.filter_cons_of_pos (by simp [hm]),
        watch_cons, hboth.1, hboth.2.buffered, hleft _ _ hboth.2.source, ← hcap, ih hrest hboth.2]

/-- over a source whose end is final, runs that differ in granted marks only are seen as the same -/
theorem besides_watch {E : σ → σ → Prop} (hE : Source.Steady E) {left : σ → α}
    (hleft : ∀ s t, E s t → left s = left t) {s : σ} (hs : E s s) {n : Nat} (hn : 0 < n)
    (rules : Rules) (limit : Nat) {ops ops' : List Op} (hops : Op.reset ∉ ops)
    (hops' : Op.reset ∉ ops')
    (hsame : (ops.filter fun op => !op.marks n) = ops'.filter fun op => !op.marks n) :
    ∃ r, create s n = .ok r ∧
      besides n (watch left rules limit ops r) = besides n (watch left rules limit ops' r) := by
  let r : Reader σ := ⟨s, Buffer.ofCapacity n, false, false⟩
  have hvalid := Buffer.valid_ofCapacity hn
  have hcap : r.capacity = n := Array.size_replicate
  have hr : Twin E r r := ⟨hs, ⟨hvalid, hvalid, rfl, rfl⟩, rfl, .inl rfl⟩
  have hwatch := watch_unmarked hE hleft rules limit hops hr
  have hwatch' := watch_unmarked hE hleft rules limit hops' hr
  rw [hcap] at hwatch hwatch'
  exact ⟨r, create_eq s hn, by rw [hwatch, hwatch', hsame]⟩

/-- **Marks are not seen.**  Two runs that do not go back have the same operations but for marks
that are granted.  Over a text, over a script whose items end for good only at its end, and over a
decoder whose feed does, with failures wherever they fall, the other operations give the same, value
or failure, bulk reads have written the same, and every one of them leaves as many characters in the
buffer and the same in the source. -/
theorem marks_unseen {n : Nat} (hn : 0 < n) (rules : Rules) (limit : Nat) {ops ops' : List Op}
    (hops : Op.reset ∉ ops) (hops' : Op.reset ∉ ops')
    (hsame : (ops.filter fun op => !op.marks n) = ops'.filter fun op => !op.marks n) :
    (∀ text : Text, ∃ r, create text n = .ok r ∧
      besides n (watch id rules limit ops r) = besides n (watch id rules limit ops' r)) ∧
    (∀ script : Script ε, Item.stop ∉ script.items → ∃ r, create script n = .ok r ∧
      besides n (watch id rules limit ops r) = besides n (watch id rules limit ops' r)) ∧
    (∀ (decode : Utf8.Decode) (feed : List (Utf8.Event ε)), Utf8.Event.nothing ∉ feed →
      ∃ r, create ({ feed := { ahead := feed } } : Utf8.Decoder ε decode) n = .ok r ∧
        besides n (watch Utf8.Decoder.left rules limit ops r) =
          besides n (watch Utf8.Decoder.left rules limit ops' r)) := by
  refine ⟨fun text => ?_, fun script hstop => ?_, fun decode feed hnothing => ?_⟩
  · exact besides_watch Text.steady (fun _ _ h => h) rfl hn rules limit hops hops' hsame
  · exact besides_watch Script.steady (fun _ _ h => h.1) ⟨rfl, hstop⟩ hn rules limit hops hops' hsame
  · refine besides_watch Utf8.Decoder.steady (fun d t h => ?_) ⟨⟨rfl, rfl, rfl⟩, .inr hnothing⟩ hn
      rules limit hops hops' hsame
    unfold Utf8.Decoder.left
    rw [h.1.ahead, h.1.pending, h.1.closed]

/-- a mark that is overwritten in the middle of a bulk read, which then fails -/
theorem marks_unseen_abc :
    let script : Script String := ⟨[.char 'a', .char 'b', .char 'c', .failure "slow", .char 'd']⟩
    let ops := [Op.fill 1, .mark 1, .readInto 5, .mark 0, .skip 2, .mark 3]
    let ops' := [Op.fill 1, .readInto 5, .skip 2, .mark 3]
    0 < 1 ∧ Op.reset ∉ ops ∧ Op.reset ∉ ops' ∧
      ((ops.filter fun op => !op.marks 1) = ops'.filter fun op => !op.marks 1) ∧
      Item.stop ∉ script.items ∧
      ∃ r, create script 1 = .ok r ∧
        besides 1 (watch id Rules.standard 9 ops r) =
          besides 1 (watch id Rules.standard 9 ops' r) := by
  intro script ops ops'
  have hops : Op.reset ∉ ops := by decide
  have hops' : Op.reset ∉ ops' := by decide
  have hsame : (ops.filter fun op => !op.marks 1) = ops'.filter fun op => !op.marks 1 := by decide
  have hstop : Item.stop ∉ script.items := by simp [script]
  exact ⟨Nat.one_pos, hops, hops', hsame, hstop,
    (marks_unseen Nat.one_pos Rules.standard 9 hops hops' hsame).2.1 script hstop⟩

end Reader

end Lookahead
