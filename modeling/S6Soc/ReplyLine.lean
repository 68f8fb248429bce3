import S6Soc.ReplyCodes

/-! From codewords to the characters on the wire: `HfVMD2` takes a codeword apart, `JfVMD2`
breaks the line, and `LfVMD2` makes characters of six bits each. -/
namespace S6Soc.WbUbus
open Clocked TtyBus

/-- How many characters a codeword has. -/
def Codeword.length (w : Codeword) : BitVec 3 :=
  if w.first.extractLsb' 3 3 = 0 then 1
  else if w.first.extractLsb' 2 4 = 2 then 6
  else if w.first.extractLsb' 2 4 = 3 then 2 + (w.first.extractLsb' 0 2).setWidth 3
  else if w.first.extractLsb' 4 2 = 1 then 2
  else if w.first.extractLsb' 4 2 = 2 then 1
  else 6

/-- Six bits for the line; the seventh marks the end of a codeword. -/
abbrev Item := BitVec 7

def mark : Item := 64

/-- The registers of `HfVMD2`: `Sf` is offered while `Ee`, and `bg` characters are left at the
top of `Je`. -/
structure Splitter where
  Ee : Bool
  Sf : Item
  Tf : Bool
  ag : Bool
  bg : BitVec 3
  Je : BitVec 30

/-- `Ce` offers the codeword `De`; `busy` is the next stage. -/
def Splitter.next (s : Splitter) (Ce : Bool) (De : Codeword) (busy : Bool) : Splitter :=
  if Ce && !s.Tf then
    { bg := De.length - 1
      Je := De.rest
      Ee := true
      Sf := De.first.setWidth 7
      Tf := true
      ag := true }
  else if s.Ee && busy then { s with Tf := true, ag := true }
  else if s.Ee then { s with Ee := false }
  else if 0 < s.bg then
    { s with
      Ee := true
      Sf := (s.Je.extractLsb' 24 6).setWidth 7
      Je := s.Je.extractLsb' 0 24 ++ s.Je.extractLsb' 0 6
      bg := s.bg - 1
      Tf := true
      ag := true }
  else if !s.Sf.getLsbD 6 then { s with Ee := true, Sf := mark, Tf := true, ag := true }
  else { s with ag := false, Tf := s.ag }

/-- The registers of `JfVMD2`: `Uf` is set when the line has just been broken, `Vf` when the
last thing taken was the end of a codeword, and `Wf` counts the characters of the line. -/
structure Breaker where
  Ee : Bool
  Sf : Item
  Uf : Bool
  Vf : Bool
  Wf : BitVec 7
  Xf : Bool
  Yf : Bool

def Breaker.Tf (s : Breaker) : Bool := s.Yf || s.Ee

/-- `more` says that something is on its way or the bus is in use. -/
def Breaker.next (s : Breaker) (Ce : Bool) (Rf : Item) (more busy : Bool) : Breaker where
  Uf := if !busy && s.Ee then s.Sf.getLsbD 6 else s.Uf
  Vf := if Ce && !s.Tf then Rf.getLsbD 6 else s.Vf
  Wf := if !busy && s.Ee then if s.Sf.getLsbD 6 then 0 else s.Wf + 1 else s.Wf
  Xf := 72 < s.Wf
  Ee :=
    if Ce && !s.Tf then s.Xf || !Rf.getLsbD 6
    else if !s.Tf then !busy && !more && !s.Uf && s.Vf
    else s.Ee && busy
  Sf := if Ce && !s.Tf then Rf else if !s.Tf then mark else s.Sf
  Yf := s.Ee

/-- The registers of `LfVMD2`, which is busy while it has a character. -/
structure Typist where
  Ee : Bool
  jf : BitVec 8

def typed (kh : Item) : BitVec 8 :=
  let c := kh.extractLsb' 0 6
  if kh.getLsbD 6 then 10
  else if c ≤ 9 then 48 + ((0 : BitVec 4) ++ kh.extractLsb' 0 4)
  else if c ≤ 35 then 65 + ((0 : BitVec 2) ++ c) - 10
  else if c ≤ 61 then 97 + ((0 : BitVec 2) ++ c) - 36
  else if c = 62 then 64
  else 37

def Typist.next (s : Typist) (Ce : Bool) (kh : Item) (busy : Bool) : Typist where
  jf := if Ce && !s.Ee then typed kh else s.jf
  Ee := if s.Ee && !busy then false else if Ce && !s.Ee then true else s.Ee

/-- The way of the reports to the serial port, `sent` being what the port has taken. -/
structure Replying where
  front : Compressing
  hf : Splitter
  jf : Breaker
  lf : Typist
  sent : List (BitVec 8)

structure Beat where
  report : Option Report
  spare : BitVec 30
  more : Bool
  busy : Bool

def Replying.offer (t : Replying) (b : Beat) : Offer := ⟨b.report, b.spare, t.hf.Tf⟩

def Replying.next (t : Replying) (b : Beat) : Replying where
  front := t.front.next (t.offer b)
  hf := t.hf.next t.front.ff.sg t.front.ff.rg t.jf.Tf
  jf := t.jf.next t.hf.Ee t.hf.Sf b.more t.lf.Ee
  lf := t.lf.next t.jf.Ee t.jf.Sf b.busy
  sent := if t.lf.Ee && !b.busy then t.sent ++ [t.lf.jf] else t.sent

/-- Of the registers without initial values `bg` has to be zero, as the FPGA starts it. -/
def replying : System Replying Beat where
  init t := compressing.init t.front ∧ t.hf.Ee = false ∧ t.hf.Tf = false ∧ t.hf.ag = false ∧
    t.hf.bg = 0 ∧ t.jf.Uf = true ∧ t.jf.Vf = true ∧ t.jf.Wf = 0 ∧ t.jf.Xf = false ∧
    t.jf.Ee = false ∧ t.jf.Yf = false ∧ t.lf.jf = 0 ∧ t.sent = []
  allowed _ _ := True
  next := Replying.next

variable {t : Replying} {b : Beat} {w : Codeword} {ws vs : List Codeword} {xs ys : List Item}

/-- The top `n` characters. -/
def sixes (x : BitVec 30) : ℕ → List (BitVec 6)
  | 0 => []
  | n + 1 => x.extractLsb' 24 6 :: sixes (x.extractLsb' 0 24 ++ x.extractLsb' 0 6) n

def Codeword.chars (w : Codeword) : List (BitVec 6) :=
  w.first :: sixes w.rest (w.length.toNat - 1)

def Codeword.items (w : Codeword) : List Item := w.chars.map (BitVec.setWidth 7)

/-- What the first stage has taken and not given yet. -/
def Splitter.held (s : Splitter) : List Item :=
  (if s.Ee then [s.Sf] else []) ++ (sixes s.Je s.bg.toNat).map (BitVec.setWidth 7) ++
    if s.Sf.getLsbD 6 then [] else [mark]

structure Splitter.Sound (s : Splitter) : Prop where
  busy : s.Tf = false → s.Ee = false ∧ s.bg = 0
  marked : s.Sf.getLsbD 6 → s.bg = 0 ∧ (s.Ee → s.Sf = mark)

theorem pred_toNat (n : BitVec 3) (h : 0 < n) : (n - 1).toNat = n.toNat - 1 := by
  revert n
  decide

theorem Codeword.length_pos (w : Codeword) : 0 < w.length := by
  unfold Codeword.length
  split_ifs
  · decide
  · decide
  · have hall : ∀ x : BitVec 2, 0 < 2 + x.setWidth 3 := by decide
    exact hall _
  · decide
  · decide
  · decide

theorem char_bit (x : BitVec 6) : (x.setWidth 7).getLsbD 6 = false := by
  rw [BitVec.getLsbD_setWidth, BitVec.getLsbD_of_ge x 6 (Nat.le_refl 6), Bool.and_false]

/-- The five ways a clock can go. -/
theorem Splitter.next_cases (s : Splitter) (Ce : Bool) (De : Codeword) (busy : Bool) :
    (Ce ∧ s.Tf = false ∧
      s.next Ce De busy = ⟨true, De.first.setWidth 7, true, true, De.length - 1, De.rest⟩) ∨
    (Ce && !s.Tf) = false ∧
      (s.Ee ∧ busy ∧ s.next Ce De busy = { s with Tf := true, ag := true } ∨
      s.Ee ∧ busy = false ∧ s.next Ce De busy = { s with Ee := false } ∨
      s.Ee = false ∧ 0 < s.bg ∧ s.next Ce De busy = ⟨true, (s.Je.extractLsb' 24 6).setWidth 7,
        true, true, s.bg - 1, s.Je.extractLsb' 0 24 ++ s.Je.extractLsb' 0 6⟩ ∨
      s.Ee = false ∧ s.bg = 0 ∧ s.Sf.getLsbD 6 = false ∧
        s.next Ce De busy = { s with Ee := true, Sf := mark, Tf := true, ag := true } ∨
      s.Ee = false ∧ s.bg = 0 ∧ s.Sf.getLsbD 6 ∧
        s.next Ce De busy = { s with ag := false, Tf := s.ag }) := by
  unfold Splitter.next
  by_cases htake : (Ce && !s.Tf) = true
  · rw [if_pos htake]
    exact Or.inl ⟨by simp_all, by simp_all, rfl⟩
  · rw [if_neg htake]
    refine Or.inr ⟨Bool.eq_false_iff.mpr htake, ?_⟩
    split_ifs with hbusy hE hbg hS
    · exact Or.inl ⟨by simp_all, by simp_all, rfl⟩
    · exact Or.inr (Or.inl ⟨hE, by simp_all, rfl⟩)
    · exact Or.inr (Or.inr (Or.inl ⟨by simpa using hE, hbg, rfl⟩))
    · have hzero : s.bg = 0 := BitVec.eq_of_toNat_eq (Nat.eq_zero_of_not_pos hbg)
      exact Or.inr (Or.inr (Or.inr (Or.inl ⟨by simpa using hE, hzero, by simpa using hS, rfl⟩)))
    · have hzero : s.bg = 0 := BitVec.eq_of_toNat_eq (Nat.eq_zero_of_not_pos hbg)
      exact Or.inr (Or.inr (Or.inr (Or.inr ⟨by simpa using hE, hzero, by simpa using hS, rfl⟩)))

theorem Splitter.Sound.next {s : Splitter} (h : s.Sound) (Ce : Bool) (De : Codeword) (busy : Bool) :
    (s.next Ce De busy).Sound := by
  rcases s.next_cases Ce De busy with ⟨-, -, hn⟩ | ⟨-, hn⟩
  · rw [hn]
    refine ⟨fun h => ?_, fun h => ?_⟩
    · cases h
    · rw [char_bit] at h
      cases h
  · rcases hn with ⟨hE, -, hn⟩ | ⟨hE, -, hn⟩ | ⟨-, -, hn⟩ | ⟨-, hbg, -, hn⟩ | ⟨hE, hbg, -, hn⟩
    · rw [hn]
      exact ⟨fun ht => (by cases ht), h.marked⟩
    · rw [hn]
      refine ⟨fun ht => ?_, fun hm => ⟨(h.marked hm).1, fun hE => (by cases hE)⟩⟩
      exact absurd ((h.busy ht).1.symm.trans hE) (by decide)
    · rw [hn]
      refine ⟨fun ht => (by cases ht), fun h => ?_⟩
      rw [char_bit] at h
      cases h
    · rw [hn]
      exact ⟨fun h => (by cases h), fun _ => ⟨hbg, fun _ => rfl⟩⟩
    · rw [hn]
      exact ⟨fun _ => ⟨hE, hbg⟩, h.marked⟩

/-- Nothing is lost and nothing comes twice. -/
theorem Splitter.held_next {s : Splitter} (h : s.Sound) (Ce : Bool) (De : Codeword) (busy : Bool)
    (hm : Ce → s.Tf = false → s.Sf.getLsbD 6) :
    s.held ++ (if Ce && !s.Tf then De.items ++ [mark] else []) =
      (if s.Ee && !busy then [s.Sf] else []) ++ (s.next Ce De busy).held := by
  rcases s.next_cases Ce De busy with ⟨hC, hT, hn⟩ | ⟨htake, hn⟩
  · obtain ⟨hE, hbg⟩ := h.busy hT
    have hlen := pred_toNat De.length De.length_pos
    rw [hn]
    simp only [Splitter.held, hE, hbg, hm hC hT, hlen, char_bit]
    simp [hC, hT, sixes, Codeword.items, Codeword.chars]
  · rw [htake]
    rcases hn with ⟨hE, hb, hn⟩ | ⟨hE, hb, hn⟩ | ⟨hE, hbg, hn⟩ | ⟨hE, hbg, hS, hn⟩ |
      ⟨hE, hbg, hS, hn⟩
    · rw [hn]
      simp [Splitter.held, hE, hb]
    · rw [hn]
      simp [Splitter.held, hE, hb]
    · have hlen := pred_toNat s.bg hbg
      have hS : s.Sf.getLsbD 6 = false := by
        by_contra hS
        rw [(h.marked (by simpa using hS)).1] at hbg
        exact absurd hbg (by decide)
      obtain ⟨n, hsucc⟩ : ∃ n, s.bg.toNat = n + 1 := ⟨s.bg.toNat - 1, by
        have : 0 < s.bg.toNat := hbg
        omega⟩
      rw [hsucc] at hlen
      rw [hn]
      simp only [Splitter.held, hE, hS, hsucc, hlen, sixes, char_bit]
      simp
    · have hmark : mark.getLsbD 6 = true := rfl
      rw [hn]
      simp [-BitVec.getLsbD_eq_getElem, Splitter.held, hE, hbg, hS, sixes, hmark]
    · rw [hn]
      simp [Splitter.held, hE]

/-- `ys` is `xs` with line breaks, of which there are some wherever a codeword has ended. -/
inductive Spaced : List Item → List Item → Prop
  | nil : Spaced [] []
  | char {xs ys : List Item} {x : Item} : Spaced xs ys → x.getLsbD 6 = false →
      Spaced (xs ++ [x]) (ys ++ [x])
  | skip {xs ys : List Item} : Spaced xs ys → Spaced (xs ++ [mark]) ys
  | newline {xs ys : List Item} : Spaced xs ys → xs.getLast?.all (· == mark) →
      Spaced xs (ys ++ [mark])

def Breaker.held (s : Breaker) : List Item := if s.Ee then [s.Sf] else []

theorem Breaker.spaced_next {s : Breaker} {Ce more busy : Bool} {Rf : Item}
    (h : Spaced xs (ys ++ s.held)) (hV : s.Vf → xs.getLast?.all (· == mark))
    (hR : Ce → Rf.getLsbD 6 → Rf = mark) :
    let xs' := xs ++ if Ce && !s.Tf then [Rf] else []
    let ys' := ys ++ if s.Ee && !busy then [s.Sf] else []
    Spaced xs' (ys' ++ (s.next Ce Rf more busy).held) ∧
      ((s.next Ce Rf more busy).Vf → xs'.getLast?.all (· == mark)) := by
  intro xs' ys'
  by_cases htake : (Ce && !s.Tf) = true
  · obtain ⟨hC, -, hE⟩ : Ce = true ∧ s.Yf = false ∧ s.Ee = false := by
      simpa [Breaker.Tf] using htake
    have hxs : xs' = xs ++ [Rf] := by simp only [xs', if_pos htake]
    have hys : ys' = ys := by simp [ys', hE]
    have hold : Spaced xs ys := by simpa [Breaker.held, hE] using h
    have hVf : (s.next Ce Rf more busy).Vf = Rf.getLsbD 6 := if_pos htake
    have hSf : (s.next Ce Rf more busy).Sf = Rf := if_pos htake
    have hEe : (s.next Ce Rf more busy).Ee = (s.Xf || !Rf.getLsbD 6) := if_pos htake
    rw [hxs, hys, Breaker.held, hVf, hSf, hEe]
    rcases Bool.eq_false_or_eq_true (Rf.getLsbD 6) with hm | hm
    · have hmark := hR hC hm
      have hlast : (xs ++ [Rf]).getLast?.all (· == mark) := by simp [hmark]
      refine ⟨?_, fun _ => hlast⟩
      rw [hm, hmark]
      cases s.Xf
      · simpa using hold.skip
      · simpa using hold.skip.newline (by simp)
    · refine ⟨?_, fun hV' => absurd (hV'.symm.trans hm) (by decide)⟩
      rw [hm]
      simpa using hold.char hm
  · have hxs : xs' = xs := by simp [xs', htake]
    have hVf : (s.next Ce Rf more busy).Vf = s.Vf := if_neg htake
    rw [hxs, hVf]
    refine ⟨?_, hV⟩
    rcases Bool.eq_false_or_eq_true s.Tf with hT | hT
    · -- on its way, or just gone
      have hE : (s.next Ce Rf more busy).Ee = (s.Ee && busy) := by
        simp [Breaker.next, hT]
      have hS : (s.next Ce Rf more busy).Sf = s.Sf := by simp [Breaker.next, hT]
      simp only [ys', Breaker.held, hE, hS] at h ⊢
      cases hEe : s.Ee <;> cases busy <;> simpa [hEe] using h
    · have hEe : s.Ee = false := by simpa [Breaker.Tf] using (Bool.or_eq_false_iff.mp hT).2
      have hC : Ce = false := by simpa [hT] using htake
      have hE : (s.next Ce Rf more busy).Ee = (!busy && !more && !s.Uf && s.Vf) := by
        simp [Breaker.next, hT, hC]
      have hS : (s.next Ce Rf more busy).Sf = mark := by simp [Breaker.next, hT, hC]
      have hold : Spaced xs ys := by simpa [Breaker.held, hEe] using h
      have hys : ys' = ys := by simp [ys', hEe]
      rw [hys, Breaker.held, hE, hS]
      split_ifs with hbreak
      · exact hold.newline (hV (by simp_all))
      · simpa using hold

/-- The codewords as characters, with line breaks before, between and after them. -/
inductive Text : List Codeword → List Item → Prop
  | nil : Text [] []
  | newline {ws : List Codeword} {ys : List Item} : Text ws ys → Text ws (ys ++ [mark])
  | code {ws : List Codeword} {ys : List Item} {w : Codeword} : Text ws ys →
      Text (ws ++ [w]) (ys ++ w.items)

/-- Line breaks, then codewords each with a mark at the end. -/
def marked (n : ℕ) (ws : List Codeword) : List Item :=
  List.replicate n mark ++ ws.flatMap fun w => w.items ++ [mark]

theorem marked_snoc (n : ℕ) (ws : List Codeword) (w : Codeword) :
    marked n (ws ++ [w]) = marked n ws ++ w.items ++ [mark] := by
  simp [marked]

theorem marked_cases (n : ℕ) (ws : List Codeword) : n = 0 ∧ ws = [] ∨
    (∃ m, n = m + 1 ∧ ws = [] ∧ marked n ws = List.replicate m mark ++ [mark]) ∨
    ∃ vs w, ws = vs ++ [w] ∧ marked n ws = marked n vs ++ w.items ++ [mark] := by
  rcases List.eq_nil_or_concat ws with rfl | ⟨vs, w, rfl⟩
  · cases n with
    | zero => exact Or.inl ⟨rfl, rfl⟩
    | succ m =>
      refine Or.inr (Or.inl ⟨m, rfl, rfl, ?_⟩)
      simp [marked, List.replicate_succ']
  · rw [List.concat_eq_append]
    exact Or.inr (Or.inr ⟨vs, w, rfl, marked_snoc n vs w⟩)

theorem append_singleton_inj {x y : Item} (h : xs ++ [x] = ys ++ [y]) : xs = ys ∧ x = y := by
  obtain ⟨hxs, hx⟩ := List.append_inj' h rfl
  exact ⟨hxs, by simpa using hx⟩

/-- Line breaks come between codewords only. -/
theorem Spaced.text (h : Spaced xs ys) {n : ℕ} {ws : List Codeword} {pre : List Item}
    (hpre : ∀ x ∈ pre, x.getLsbD 6 = false) (hxs : xs = marked n ws ++ pre) :
    ∃ zs, ys = zs ++ pre ∧ Text ws zs := by
  have hmark : mark.getLsbD 6 = true := rfl
  induction h generalizing n ws pre with
  | nil =>
    obtain ⟨hm, rfl⟩ := List.append_eq_nil_iff.mp hxs.symm
    rcases marked_cases n ws with ⟨-, rfl⟩ | ⟨m, -, rfl, hw⟩ | ⟨vs, w, rfl, hw⟩
    · exact ⟨[], rfl, .nil⟩
    · simp [hw] at hm
    · simp [hw] at hm
  | @char xs ys x h hx ih =>
    rcases List.eq_nil_or_concat pre with rfl | ⟨pre, y, rfl⟩
    · -- what ends a codeword is no character
      rcases marked_cases n ws with ⟨rfl, rfl⟩ | ⟨m, -, -, hw⟩ | ⟨vs, w, -, hw⟩
      · simp [marked] at hxs
      · rw [List.append_nil, hw] at hxs
        rw [(append_singleton_inj hxs).2, hmark] at hx
        cases hx
      · rw [List.append_nil, hw] at hxs
        rw [(append_singleton_inj hxs).2, hmark] at hx
        cases hx
    · rw [List.concat_eq_append] at hpre hxs ⊢
      rw [← List.append_assoc] at hxs
      obtain ⟨hxs', rfl⟩ := append_singleton_inj hxs
      obtain ⟨zs, rfl, ht⟩ := ih (fun y hy => hpre y (List.mem_append_left _ hy)) hxs'
      exact ⟨zs, List.append_assoc .., ht⟩
  | @skip xs ys h ih =>
    rcases List.eq_nil_or_concat pre with rfl | ⟨pre, y, rfl⟩
    · rw [List.append_nil] at hxs
      rcases marked_cases n ws with ⟨rfl, rfl⟩ | ⟨m, rfl, rfl, hw⟩ | ⟨vs, w, rfl, hw⟩
      · simp [marked] at hxs
      · rw [hw] at hxs
        have hmarks : xs = marked m [] ++ [] := by
          rw [(append_singleton_inj hxs).1]
          simp [marked]
        exact ih hpre hmarks
      · rw [hw] at hxs
        have hchars : ∀ x ∈ w.items, x.getLsbD 6 = false := by
          intro x hx
          obtain ⟨c, -, rfl⟩ := List.mem_map.mp hx
          exact char_bit c
        obtain ⟨zs, rfl, ht⟩ := ih hchars (append_singleton_inj hxs).1
        exact ⟨zs ++ w.items, (List.append_nil _).symm, ht.code⟩
    · rw [List.concat_eq_append] at hpre hxs
      rw [← List.append_assoc] at hxs
      have hy := hpre y (by simp)
      rw [← (append_singleton_inj hxs).2, hmark] at hy
      cases hy
  | @newline xs ys h hlast ih =>
    rcases List.eq_nil_or_concat pre with rfl | ⟨pre, y, rfl⟩
    · obtain ⟨zs, rfl, ht⟩ := ih hpre hxs
      exact ⟨zs ++ [mark], by simp, ht.newline⟩
    · rw [List.concat_eq_append] at hpre hxs
      have hy := hpre y (by simp)
      have hym : y = mark := by simpa [hxs, ← List.append_assoc] using hlast
      rw [hym, hmark] at hy
      cases hy

def Typist.held (s : Typist) : List (BitVec 8) := if s.Ee then [s.jf] else []

theorem Typist.held_next (s : Typist) (Ce : Bool) (kh : Item) (busy : Bool) :
    s.held ++ (if Ce && !s.Ee then [typed kh] else []) =
      (if s.Ee && !busy then [s.jf] else []) ++ (s.next Ce kh busy).held := by
  cases hE : s.Ee <;> cases Ce <;> cases busy <;> simp [Typist.held, Typist.next, hE]

/-- The splitter has given `xs`, and the breaker `ys`; the first thing sent may be the zero that
the last stage starts with. -/
structure Replying.Kept (t : Replying) (n : ℕ) (nul : List (BitVec 8)) (xs ys : List Item) :
    Prop where
  zero : ∀ c ∈ nul, c = 0
  sound : t.hf.Sound
  started : t.front.ff.sg → t.hf.Tf = false → t.hf.Sf.getLsbD 6
  split : xs ++ t.hf.held = marked n t.front.passed
  spaced : Spaced xs (ys ++ t.jf.held)
  ended : t.jf.Vf → xs.getLast?.all (· == mark)
  typed : t.sent ++ t.lf.held = nul ++ ys.map typed

theorem Replying.kept_init (h : replying.init t) : ∃ n nul, t.Kept n nul [] [] := by
  obtain ⟨⟨hsg, -, -, -, hpassed⟩, hE, -, -, hbg, -, -, -, -, hJ, -, hjf, hsent⟩ := h
  have hn : ¬ t.front.ff.sg = true := by rw [hsg]; decide
  have hsplit : [] ++ t.hf.held = marked (if t.hf.Sf.getLsbD 6 then 0 else 1) t.front.passed := by
    simp only [Splitter.held, hE, hbg, hpassed, Bool.false_eq_true, if_false]
    split_ifs <;> rfl
  refine ⟨_, t.lf.held, fun c hc => ?_, ⟨fun _ => ⟨hE, hbg⟩, fun _ => ⟨hbg, fun h => ?_⟩⟩,
    fun h => absurd h hn, hsplit, ?_, fun _ => rfl, ?_⟩
  · unfold Typist.held at hc
    split_ifs at hc
    · exact (List.mem_singleton.mp hc).trans hjf
    · cases hc
  · exact absurd (h.symm.trans hE) (by decide)
  · simp only [Breaker.held, hJ]
    exact .nil
  · rw [hsent]
    simp

theorem Splitter.Sound.marked_next {s : Splitter} (h : s.Sound) {Ce busy : Bool} {De : Codeword}
    (hT : (s.next Ce De busy).Tf = false) : (s.next Ce De busy).Sf.getLsbD 6 := by
  rcases s.next_cases Ce De busy with ⟨-, -, hn⟩ | ⟨-, hn⟩
  · rw [hn] at hT
    cases hT
  · rcases hn with ⟨-, -, hn⟩ | ⟨hE, -, hn⟩ | ⟨-, -, hn⟩ | ⟨-, -, -, hn⟩ | ⟨-, -, hS, hn⟩
    · rw [hn] at hT
      cases hT
    · rw [hn] at hT
      exact absurd ((h.busy hT).1.symm.trans hE) (by decide)
    · rw [hn] at hT
      cases hT
    · rw [hn] at hT
      cases hT
    · rw [hn]
      exact hS

theorem Replying.Kept.next {n : ℕ} {nul : List (BitVec 8)} (h : t.Kept n nul xs ys) :
    ∃ xs' ys', (t.next b).Kept n nul xs' ys' := by
  refine ⟨xs ++ (if t.hf.Ee && !t.jf.Tf then [t.hf.Sf] else []),
    ys ++ (if t.jf.Ee && !t.lf.Ee then [t.jf.Sf] else []), h.zero, h.sound.next _ _ _,
    fun _ => h.sound.marked_next, ?_, ?_, ?_, ?_⟩
  · have hpassed : (t.next b).front.passed =
        t.front.passed ++ if t.front.ff.sg && !t.hf.Tf then [t.front.ff.rg] else [] := by
      by_cases hc : (t.front.ff.sg && !t.hf.Tf) = true
      · exact (if_pos hc).trans (by rw [if_pos hc])
      · exact (if_neg hc).trans (by rw [if_neg hc, List.append_nil])
    have hheld := Splitter.held_next h.sound t.front.ff.sg t.front.ff.rg t.jf.Tf h.started
    rw [hpassed, List.append_assoc]
    refine (congrArg (xs ++ ·) hheld.symm).trans ?_
    rw [← List.append_assoc, h.split]
    split_ifs
    · exact (List.append_assoc ..).symm.trans (marked_snoc ..).symm
    · simp
  · exact (Breaker.spaced_next h.spaced h.ended fun hE hm => (h.sound.marked hm).2 hE).1
  · exact (Breaker.spaced_next h.spaced h.ended fun hE hm => (h.sound.marked hm).2 hE).2
  · have hheld := t.lf.held_next t.jf.Ee t.jf.Sf b.busy
    have hsent : (t.next b).sent = t.sent ++ if t.lf.Ee && !b.busy then [t.lf.jf] else [] := by
      simp only [Replying.next]
      split_ifs <;> simp
    rw [hsent, List.append_assoc]
    refine (congrArg (t.sent ++ ·) hheld.symm).trans ?_
    rw [← List.append_assoc, h.typed]
    split_ifs <;> simp

theorem Spaced.extend (h : Spaced xs ys) {zs : List Item}
    (hz : ∀ x ∈ zs, x.getLsbD 6 → x = mark) :
    Spaced (xs ++ zs) (ys ++ zs.filter fun x => !x.getLsbD 6) := by
  induction zs generalizing xs ys with
  | nil => simpa using h
  | cons z zs ih =>
    have hz' : ∀ x ∈ zs, x.getLsbD 6 → x = mark := fun x hx => hz x (List.mem_cons_of_mem _ hx)
    rcases Bool.eq_false_or_eq_true (z.getLsbD 6) with hm | hm
    · have hzm := hz z (List.mem_cons_self ..) hm
      have := ih (h.skip) hz'
      rw [List.filter_cons_of_neg (by rw [hm]; decide)]
      simpa [hzm] using this
    · have := ih (h.char hm) hz'
      rw [List.filter_cons_of_pos (by rw [hm]; decide)]
      simpa using this

theorem mem_marked {n : ℕ} {x : Item} (hx : x ∈ marked n ws) (hm : x.getLsbD 6) : x = mark := by
  rcases List.mem_append.mp hx with hx | hx
  · exact List.eq_of_mem_replicate hx
  · obtain ⟨w, -, hx⟩ := List.mem_flatMap.mp hx
    rcases List.mem_append.mp hx with hx | hx
    · obtain ⟨c, -, rfl⟩ := List.mem_map.mp hx
      rw [char_bit] at hm
      cases hm
    · exact List.mem_singleton.mp hx

/-- Nothing waits behind the compressor. -/
structure Replying.Quiet (t : Replying) : Prop where
  hf : t.hf.Tf = false
  jf : t.jf.Ee = false
  lf : t.lf.Ee = false

theorem Replying.kept_of_reachable (h : replying.Reachable t) :
    ∃ n nul xs ys, t.Kept n nul xs ys := by
  refine h.invariant (P := fun u => ∃ n nul xs ys, u.Kept n nul xs ys) (fun s hs => ?_) ?_
  · obtain ⟨n, nul, hk⟩ := kept_init hs
    exact ⟨n, nul, [], [], hk⟩
  · rintro u b ⟨n, nul, xs, ys, hu⟩ -
    exact ⟨n, nul, hu.next⟩

theorem Replying.front_of_reachable (h : replying.Reachable t) : compressing.Reachable t.front :=
  h.invariant (P := fun u => compressing.Reachable u.front)
    (fun _ hs => System.reachable_init hs.1) fun u _ hu ha =>
      System.Reachable.step (M := compressing) (s := u.front) hu ha

/-- What is sent is the beginning of a text of the codewords that have been passed on. -/
theorem sent_prefix (h : replying.Reachable t) : ∃ nul zs, (∀ c ∈ nul, c = 0) ∧
    Text t.front.passed zs ∧ t.sent <+: nul ++ zs.map typed ∧
      (t.Quiet → t.sent = nul ++ zs.map typed) := by
  obtain ⟨n, nul, xs, ys, hk⟩ := Replying.kept_of_reachable h
  have hheld : ∀ x ∈ t.hf.held, x.getLsbD 6 → x = mark := by
    intro x hx
    exact mem_marked (hk.split ▸ List.mem_append_right xs hx)
  have hspaced := hk.spaced.extend hheld
  rw [hk.split] at hspaced
  obtain ⟨zs, hzs, ht⟩ := hspaced.text (List.forall_mem_nil _) (List.append_nil _).symm
  rw [List.append_nil] at hzs
  refine ⟨nul, zs, hk.zero, ht, ?_, fun hq => ?_⟩
  · refine (List.prefix_append _ t.lf.held).trans ?_
    rw [hk.typed, ← hzs]
    simp
  · obtain ⟨hE, hbg⟩ := hk.sound.busy hq.hf
    have hlf : t.lf.held = [] := by simp [Typist.held, hq.lf]
    have hjf : t.jf.held = [] := by simp [Breaker.held, hq.jf]
    have hhf : t.hf.held.filter (fun x => !x.getLsbD 6) = [] := by
      simp only [Splitter.held, hE, hbg, Bool.false_eq_true, if_false]
      split_ifs <;> rfl
    rw [hjf, hhf, List.append_nil, List.append_nil] at hzs
    rw [← hzs, ← hk.typed, hlf, List.append_nil]

end S6Soc.WbUbus
