import Lookahead.Proofs.Reader.Scans

/-!
# What lies ahead of a reader

A parser that reads a text from front to end needs to know of its reader only how much of the text
lies ahead and how far it can look.  What a scan does is then told by what it gives and by what it
leaves.  Where nothing is left and that was seen, the reader is through with its text.

* `Ahead`, `Through`     where a reader stands in its text, and that it is at the end;
* `Gives`                what a scan gives and where it leaves the reader;
* `Refuses`              how a scan is refused, and where it leaves the reader then;
* `gives_acceptWord`, `gives_takeWhile`, `gives_skipTrivia`   the parts that tokenizers are made of.
-/

namespace Lookahead

open Scan (step)

namespace Reader

variable {α β : Type} {n limit : Nat} {cs ds : List Char} {rules : Rules}

/-! ## places in a text -/

/-- the reader is open and looks up to `n` characters ahead, and `cs` are those to come -/
def Ahead (n : Nat) (cs : List Char) (r : Reader Text) : Prop :=
  ∃ c, Shows r c ∧ c.closed = false ∧ c.capacity = n ∧ c.ahead = cs

/-- the reader has come to the end of its text and has told so -/
structure Through (r : Reader Text) : Prop where
  ended : r.ended = true
  buffered : r.buffered = 0
  rest : r.source.rest = []

theorem ahead_create (text : List Char) (hn : 0 < n) (hmax : n < maxCount) :
    Ahead n text ⟨⟨text⟩, Buffer.ofCapacity n, false, false⟩ :=
  ⟨_, shows_create text hn hmax, rfl, rfl, rfl⟩

/-! ## scans from place to place -/

/-- from readers with `P` the scan gives `a` and leaves readers with `Q` -/
def Gives (P : Reader Text → Prop) (x : Scan Text Empty α) (a : α) (Q : Reader Text → Prop) :
    Prop :=
  ∀ r, P r → ∃ r', x r = .ok a r' ∧ Q r'

section
variable {P Q S : Reader Text → Prop} {x : Scan Text Empty α} {a : α}

theorem gives_pure (a : α) : Gives P (pure a) a P := fun r h => ⟨r, rfl, h⟩

theorem Gives.bind {f : α → Scan Text Empty β} {b : β} (hx : Gives P x a Q)
    (hf : Gives Q (f a) b S) : Gives P (x >>= f) b S := by
  intro r h
  obtain ⟨r', hr, h'⟩ := hx r h
  obtain ⟨q, hq, hend⟩ := hf r' h'
  exact ⟨q, by rw [bind_apply, hr]; exact hq, hend⟩

theorem Gives.map {b : β} (f : α → β) (hb : f a = b) (hx : Gives P x a Q) :
    Gives P (f <$> x) b Q := hb ▸ hx.bind (gives_pure (f a))

/-- from readers with `P` the scan is refused for this reason and leaves readers with `Q` -/
def Refuses (P : Reader Text → Prop) (x : Scan Text Empty α) (e : ReadError Empty)
    (Q : Reader Text → Prop) : Prop :=
  ∀ r, P r → ∃ r', x r = .error (.error e) r' ∧ Q r'

theorem Refuses.bind {e : ReadError Empty} (hx : Refuses P x e Q) (f : α → Scan Text Empty β) :
    Refuses P (x >>= f) e Q := by
  intro r h
  obtain ⟨r', hr, h'⟩ := hx r h
  exact ⟨r', by rw [bind_apply, hr], h'⟩

theorem Gives.refuses {f : α → Scan Text Empty β} {e : ReadError Empty} (hx : Gives P x a Q)
    (hf : Refuses Q (f a) e S) : Refuses P (x >>= f) e S := by
  intro r h
  obtain ⟨r', hr, h'⟩ := hx r h
  obtain ⟨q, hq, hend⟩ := hf r' h'
  exact ⟨q, by rw [bind_apply, hr]; exact hq, hend⟩

end

/-- a scan goes on from where a cursor stands, and reads what it leaves behind -/
theorem gives_of_goes {x : Scan Text Empty α} {a : α}
    (hgoes : ∀ c : Cursor, c.Valid → c.capacity = n → c.ahead = cs →
      ∃ k j, Goes x c (.ok a (c.reached k j)) ∧ cs.drop k = ds) :
    Gives (Ahead n cs) x a (Ahead n ds) := by
  rintro r ⟨c, h, hopen, hcap, hahead⟩
  obtain ⟨k, j, hx, hdrop⟩ := hgoes c h.valid hcap hahead
  obtain ⟨r', hr, h'⟩ := hx r h
  refine ⟨r', hr, _, h', hopen, hcap, ?_⟩
  rw [Cursor.ahead_reached, hahead, hdrop]

/-! ## looking and reading -/

theorem gives_peek : Gives (Ahead n cs) (step peek) cs.head? (Ahead n cs) :=
  gives_of_goes fun c hc _ hahead => by
    refine ⟨0, 1, ?_, List.drop_zero⟩
    rw [Cursor.reached_zero_left, ← hahead]
    exact goes_peek hc

theorem gives_read {ch : Char} :
    Gives (Ahead n (ch :: cs)) (step read) (some ch) (Ahead n cs) :=
  gives_of_goes fun c _ _ hahead => by
    refine ⟨1, 0, ?_, List.drop_one⟩
    have hread := goes_read (c := c)
    rwa [hahead, List.head?_cons, ← Cursor.reached_zero_right] at hread

theorem gives_peek_end : Gives (Ahead n []) (step peek) none Through := by
  rintro r ⟨c, h, hopen, -, hahead⟩
  have hbuffered : c.buffered = 0 := by
    have hle := h.valid.buffered_le_ahead
    rw [hahead, List.length_nil] at hle
    omega
  have hcount : r.buffered = 0 := h.count.trans hbuffered
  have hempty : r.buffer.isEmpty = true := h.isEmpty_iff.2 hbuffered
  have hnone : r.buffer.peekAt 0 = none := by
    rw [Buffer.peekAt_eq_getElem?, h.held, hahead, List.take_nil]
    rfl
  have hone : min (0 + 1) maxCount = 1 := by decide
  have hcap : ¬ r.capacity < 1 := by
    have hpos := h.valid.pos
    have hcapacity : r.capacity = c.capacity := h.stands.capacity
    omega
  rw [Scan.step_apply, peek, peekNth_eq, hone, fill_eq, if_neg hcap]
  by_cases hdry : r.isDry = true
  · have hended : r.ended = true := by
      have hor : (r.ended || r.closed) = true := hdry
      rwa [h.closed, hopen, Bool.or_false] at hor
    rw [if_pos hdry]
    dsimp only
    rw [hnone]
    refine ⟨r, rfl, hended, hcount, ?_⟩
    rw [h.rest hopen, h.ended hended hopen, List.drop_length]
  · have hrest : r.source.rest = [] := (h.rest_eq hdry hempty).trans hahead
    rw [if_neg hdry, hcount, pullMore_succ, Shows.readChar_nil hrest]
    dsimp only
    rw [hnone]
    exact ⟨_, rfl, rfl, hcount, hrest⟩

/-! ## accepting what comes next -/

theorem gives_accepting {x : Step Text Empty Bool} {y : Cursor.Move Bool} {k : Nat} {b : Bool}
    (sight : Nat → List Char → Except (ReadError Empty) Bool) (hxy : Agree Shows x y)
    (hfinds : ∀ c : Cursor, c.Valid → Cursor.Finds k c y (sight c.capacity c.ahead))
    (hb : sight n cs = .ok b) :
    Gives (Ahead n cs) (step (accepting x k)) b (Ahead n (if b then cs.drop k else cs)) := by
  refine gives_of_goes fun c hc hcap hahead => ?_
  obtain ⟨j, hy, -⟩ := hfinds c hc
  rw [hcap, hahead, hb] at hy
  have hgoes := goes_step_eq (c := c) (agree_accepting hxy fun c hc => ⟨_, hfinds c hc⟩)
    (Cursor.accepting_apply y k c)
  rw [hy] at hgoes
  cases b with
  | false => exact ⟨0, j, c.reached_zero_left j ▸ hgoes, List.drop_zero⟩
  | true => exact ⟨k, j - k, c.looked_advanced j k ▸ hgoes, rfl⟩

theorem refuses_accepting {x : Step Text Empty Bool} {y : Cursor.Move Bool} {k : Nat}
    {e : ReadError Empty} (sight : Nat → List Char → Except (ReadError Empty) Bool)
    (hxy : Agree Shows x y)
    (hfinds : ∀ c : Cursor, c.Valid → Cursor.Finds k c y (sight c.capacity c.ahead))
    (he : sight n cs = .error e) :
    Refuses (Ahead n cs) (step (accepting x k)) e (Ahead n cs) := by
  rintro r ⟨c, h, hopen, hcap, hahead⟩
  obtain ⟨j, hy, -⟩ := hfinds c h.valid
  rw [hcap, hahead, he] at hy
  have hgoes := goes_step_eq (c := c) (agree_accepting hxy fun c hc => ⟨_, hfinds c hc⟩)
    (Cursor.accepting_apply y k c)
  rw [hy] at hgoes
  obtain ⟨r', hr, h'⟩ := hgoes r h
  exact ⟨r', hr, c.looked j, h', hopen, hcap, hahead⟩

theorem gives_acceptWord {w : List Char} {b : Bool} (hb : seesWord rules n cs w = .ok b) :
    Gives (Ahead n cs) (step (acceptWord rules w)) b
      (Ahead n (if b then cs.drop w.length else cs)) :=
  gives_accepting (fun n cs => seesWord rules n cs w) (agree_atWord rules w)
    (fun _ hc => Cursor.finds_atWord hc rules w) hb

theorem gives_acceptText {s : List Char} {b : Bool} (hb : sees n cs s = .ok b) :
    Gives (Ahead n cs) (step (acceptText s)) b (Ahead n (if b then cs.drop s.length else cs)) :=
  gives_accepting (fun n cs => sees n cs s) (agree_atText s)
    (fun _ hc => Cursor.finds_atText hc s) hb

theorem refuses_acceptWord {w : List Char} {e : ReadError Empty}
    (he : seesWord rules n cs w = .error e) :
    Refuses (Ahead n cs) (step (acceptWord rules w)) e (Ahead n cs) :=
  refuses_accepting (fun n cs => seesWord rules n cs w) (agree_atWord rules w)
    (fun _ hc => Cursor.finds_atWord hc rules w) he

theorem refuses_acceptText {s : List Char} {e : ReadError Empty} (he : sees n cs s = .error e) :
    Refuses (Ahead n cs) (step (acceptText s)) e (Ahead n cs) :=
  refuses_accepting (fun n cs => sees n cs s) (agree_atText s)
    (fun _ hc => Cursor.finds_atText hc s) he

theorem gives_acceptChar (ch : Char) :
    Gives (Ahead n cs) (step (acceptChar ch)) (cs.head? == some ch)
      (Ahead n (if cs.head? == some ch then cs.drop 1 else cs)) :=
  gives_accepting (fun _ cs => .ok (cs.head? == some ch)) (agree_atNth 0 ch)
    (fun _ hc => Cursor.finds_peek hc (· == some ch) rfl) rfl

/-! ## runs of characters and trivia -/

theorem gives_takeWhile (p : Char → Bool) (hlimit : cs.length < limit) :
    Gives (Ahead n cs) (takeWhile p limit) (cs.takeWhile p) (Ahead n (cs.dropWhile p)) :=
  gives_of_goes fun c _ _ hahead => by
    refine ⟨(cs.takeWhile p).length, 1, ?_, ?_⟩
    · rw [← hahead]
      exact goes_takeWhile p (by rw [hahead]; exact hlimit)
    · rw [length_takeWhile]
      exact drop_of_suffix (List.dropWhile_suffix p)

theorem gives_skipTrivia (hstart : rules.commentStart.length ≤ n) (hlimit : cs.length < limit) :
    Gives (Ahead n cs) (skipTrivia rules limit) () (Ahead n (rules.dropTrivia cs)) := by
  have hleave : rules.dropTrivia cs = rules.leave n cs := (if_pos hstart).symm
  refine gives_of_goes fun c hc hcap hahead => ?_
  have hgoes := goes_skipTrivia (c := c) rules (by rw [hahead]; exact hlimit)
  rw [Cursor.skipTrivia_apply hc rules (hahead ▸ hcap ▸ hleave), hcap, hahead] at hgoes
  obtain ⟨b, hb⟩ := Cursor.exists_seesComment hstart (rules.dropTrivia cs)
  rw [hb] at hgoes
  exact ⟨_, _, hgoes, drop_of_suffix (rules.dropTrivia_suffix cs)⟩

end Reader

end Lookahead
