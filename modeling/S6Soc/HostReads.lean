import Mathlib
import S6Soc.Replies
import S6Soc.Commands

/-! A host that reads, from its commands to the words that `readword` returns: the machine that
has the bus, and the way of its reports. -/
namespace S6Soc.WbUbus
open Clocked TtyBus

/-- The words read are `vs`; each comes with where the next byte is. -/
def Script.heard (x : Script) : List Codeword → List Word → List (Word × Word)
  | [], _ => []
  | w :: ws, vs => (vs.take w.reads).mapIdx (fun k v => (v, x.place w (k + 1) <<< 2)) ++
      (x.next w).heard ws (vs.drop w.reads)

variable {x : Script} {w : Codeword} {ws : List Codeword}

theorem shift_succ (p : Word) : (p + 1) <<< 2 = p <<< 2 + 4 := by
  apply BitVec.eq_of_toNat_eq
  simp only [BitVec.toNat_shiftLeft, BitVec.toNat_add, BitVec.ofNat_eq_ofNat, BitVec.toNat_ofNat,
    Nat.shiftLeft_eq]
  omega

theorem place_shift (x : Script) (w : Codeword) (k : ℕ) :
    x.place w k <<< 2 + (if w.inc then (4 : Word) else 0) = x.place w (k + 1) <<< 2 := by
  rw [x.place_succ]
  split_ifs
  · exact (shift_succ _).symm
  · exact BitVec.add_zero _

/-- Words read one after the other, and where the host is after them. -/
theorem words_data (x : Script) (w : Codeword) (vs : List Word) (rs : List Report) (k : ℕ) :
    words (x.place w k <<< 2) (vs.map (.data w.inc) ++ rs) =
      vs.mapIdx (fun j v => (v, x.place w (k + j + 1) <<< 2)) ++
        words (x.place w (k + vs.length) <<< 2) rs := by
  induction vs generalizing k with
  | nil => rfl
  | cons v vs ih =>
    have hcons : words (x.place w k <<< 2) ((v :: vs).map (.data w.inc) ++ rs) =
        (v, x.place w k <<< 2 + if w.inc then 4 else 0) ::
          words (x.place w k <<< 2 + if w.inc then 4 else 0) (vs.map (.data w.inc) ++ rs) := rfl
    rw [hcons, place_shift, ih, List.mapIdx_cons, List.length_cons]
    have hadd : ∀ j, k + 1 + j = k + (j + 1) := fun j => by omega
    simp only [hadd, List.cons_append, Nat.add_zero]

/-- Where nothing is answered nothing is heard. -/
theorem words_unanswered (x : Script) (ws : List Codeword) (a : Word) :
    words a (x.reports ws []) = [] ∧ x.heard ws [] = [] := by
  induction ws generalizing x a with
  | nil => exact ⟨rfl, rfl⟩
  | cons w ws ih =>
    refine ⟨?_, ?_⟩
    · rw [Script.reports, List.take_nil, List.drop_nil, List.map_nil, List.append_nil,
        Script.opening]
      split_ifs
      · exact (ih _ _).1
      · exact (ih _ _).1
    · rw [Script.heard, List.take_nil, List.drop_nil, List.mapIdx_nil, List.nil_append]
      exact (ih _ 0).2

theorem words_opening (x : Script) (w : Codeword) (rs : List Report) (a : Word)
    (ha : x.fresh = false → a = x.addr <<< 2) (hw : 0 < w.reads) :
    words a (x.opening w ++ rs) = words (x.place w 0 <<< 2) rs := by
  have hplace : x.place w 0 = x.addr := by
    unfold Script.place
    split_ifs
    · exact BitVec.add_zero _
    · rfl
  unfold Script.opening
  rw [hplace]
  by_cases hf : x.fresh
  · rw [if_pos ⟨hw, hf⟩]
    rfl
  · rw [if_neg fun h => hf h.2, List.nil_append, ha (Bool.eq_false_iff.mpr hf)]

/-- The reports of the commands tell the host the words read and their addresses. -/
theorem words_reports (x : Script) (ws : List Codeword) (hr : ∀ w ∈ ws, w.Reads)
    (vs : List Word) (a : Word) (ha : x.fresh = false → a = x.addr <<< 2) :
    words a (x.reports ws vs) = x.heard ws vs := by
  induction ws generalizing x vs a with
  | nil => rfl
  | cons w ws ih =>
    have hrest : ∀ v ∈ ws, v.Reads := fun v hv => hr v (List.mem_cons_of_mem _ hv)
    have hnothing (hreads : w.reads = 0)
        (hnext : (x.next w).fresh = false → a = (x.next w).addr <<< 2) :
        words a (x.reports (w :: ws) vs) = x.heard (w :: ws) vs := by
      have hopening : x.opening w = [] := if_neg (by rw [hreads]; simp)
      rw [Script.reports, Script.heard, hopening, hreads, List.take_zero, List.drop_zero]
      exact ih _ hrest vs a hnext
    rcases (hr w (List.mem_cons_self ..)).cases with ⟨hkind, hnot, -⟩ | ⟨⟨h0, h1⟩, h2, -⟩ |
      ⟨⟨h0, h1⟩, h3, hcount⟩
    · -- the host sets the address
      have hfresh : (x.next w).fresh = true := by
        rcases hkind with h | ⟨h, h'⟩
        · rw [Script.next, if_pos h]
        · rw [Script.next, if_neg h, if_pos h']
      exact hnothing (if_neg hnot) fun hf => absurd (hf.symm.trans hfresh) (by decide)
    · have hnot : w.first.extractLsb' 4 2 ≠ 3 := by
        rw [h2]
        decide
      have hnext : x.next w = x := by
        rw [Script.next, if_neg h0, if_neg h1, if_neg hnot]
      exact hnothing (if_neg hnot) (hnext.symm ▸ ha)
    · have hpos : 0 < w.reads := by
        rw [Codeword.reads_of_kind h3]
        exact Nat.pos_of_ne_zero fun h => hcount (BitVec.eq_of_toNat_eq h)
      have hnext : x.next w = ⟨x.place w w.reads, false⟩ := by
        rw [Script.next, if_neg h0, if_neg h1, if_pos h3]
      rw [Script.reports, Script.heard, List.append_assoc, words_opening x w _ a ha hpos,
        words_data x w (vs.take w.reads) _ 0]
      have hzero : ∀ j, 0 + j + 1 = j + 1 := fun j => by omega
      simp only [hzero]
      refine congrArg (_ ++ ·) ?_
      rcases Nat.lt_or_ge vs.length w.reads with hlt | hge
      · rw [List.drop_eq_nil_of_le hlt.le, (words_unanswered _ ws _).1,
          (words_unanswered _ ws 0).2]
      · refine ih _ hrest _ _ fun _ => ?_
        rw [List.length_take, Nat.min_eq_left hge, Nat.zero_add, hnext]

structure Hosted where
  bus : Commanding
  way : Reporting

/-- The bus, the interrupt, and the serial port. -/
structure HostClock where
  bus : BusClock
  hf : Bool
  busy : Bool

def Hosted.occasion (t : Hosted) (i : HostClock) : Occasion where
  Qe := i.bus.Qe
  Ce := t.bus.ve.Ee
  ff := t.bus.ve.eg
  gf := t.bus.ve.oWbCyc
  hf := i.hf
  busy := i.busy

def Hosted.next (t : Hosted) (i : HostClock) : Hosted where
  bus := t.bus.next i.bus
  way := t.way.next (t.occasion i)

def hosted : System Hosted HostClock where
  init t := commanding.init t.bus ∧ reporting.init t.way
  allowed t i := commanding.allowed t.bus i.bus ∧ reporting.allowed t.way (t.occasion i)
  next := Hosted.next

instance Hosted.decidableAllowed (t : Hosted) (i : HostClock) : Decidable (hosted.allowed t i) :=
  inferInstanceAs (Decidable (commanding.allowed t.bus i.bus ∧
    reporting.allowed t.way (t.occasion i)))

variable {t : Hosted} {i : HostClock}

structure Hosted.Kept (t : Hosted) : Prop where
  bus : commanding.Reachable t.bus
  way : reporting.Reachable t.way
  reads : ∀ w ∈ t.bus.obeyed, w.Reads
  said : t.way.said = t.bus.said

theorem Hosted.kept_init (h : hosted.init t) : t.Kept := by
  obtain ⟨hbus, hway⟩ := h
  have hobeyed : t.bus.obeyed = [] := hbus.2.2.2.2.2.1
  have hsaid : t.bus.said = [] := hbus.2.2.2.2.2.2.2.2.2
  have hsaid' : t.way.said = [] := hway.2.2.2.2.2.2.2.2.2.2.2.2.1
  refine ⟨System.reachable_init hbus, System.reachable_init hway, fun w hw => ?_, ?_⟩
  · rw [hobeyed] at hw
    cases hw
  · rw [hsaid, hsaid']

theorem Hosted.Kept.next (h : t.Kept) (ha : hosted.allowed t i) : (t.next i).Kept := by
  obtain ⟨hbus, hway⟩ := ha
  refine ⟨h.bus.step hbus, h.way.step hway, fun w hw => ?_, ?_⟩
  · change w ∈ (if i.bus.Ce then t.bus.obeyed ++ [i.bus.ff] else t.bus.obeyed) at hw
    split_ifs at hw with hC
    · rcases List.mem_append.mp hw with hw | hw
      · exact h.reads w hw
      · rw [List.mem_singleton.mp hw]
        exact (hbus.2.2.1 hC).2
    · exact h.reads w hw
  · change (if i.bus.Qe then _ else if t.bus.ve.Ee then t.way.said ++ [t.bus.ve.eg.report]
      else t.way.said) = if t.bus.ve.Ee then t.bus.said ++ [t.bus.ve.eg.report] else t.bus.said
    rw [hbus.1, h.said]
    rfl

/-- Nothing is asked, and nothing is on its way. -/
structure Hosted.Quiet (t : Hosted) : Prop where
  ready : t.bus.ve.Tf = false
  reported : t.bus.ve.Ee = false
  way : t.way.Quiet

theorem Hosted.kept_of_reachable (h : hosted.Reachable t) : t.Kept :=
  h.invariant (fun _ => Hosted.kept_init) fun _ _ hu => hu.next

/-- What the host is told, sooner or later. -/
theorem Hosted.Kept.heard (hk : t.Kept) (s : Reader)
    (hline : s.line = t.way.line.sent.map hostChar) : ∃ x : Script, x.fresh ∧
      t.bus.asked <+: x.requests t.bus.obeyed ∧
        s.readwords <+: x.heard t.bus.obeyed t.bus.answers ∧
          (t.Quiet → t.bus.asked = x.requests t.bus.obeyed ∧
            t.bus.answers.length = total t.bus.obeyed ∧
              s.readwords = x.heard t.bus.obeyed t.bus.answers) := by
  obtain ⟨x, hfresh, hkept⟩ := Commanding.kept_of_reachable hk.bus
  obtain ⟨hsome, hall⟩ := Reporting.readwords_kept hk.way s hline
  have hheard := words_reports x t.bus.obeyed hk.reads t.bus.answers s.lastaddr
    fun hf => absurd (hf.symm.trans hfresh) (by decide)
  rw [← hkept.said] at hheard
  refine ⟨x, hfresh, hkept.asked, ?_, fun hq => ?_⟩
  · have hmore := words_append s.lastaddr t.bus.said t.bus.ve.offered
    rw [hheard] at hmore
    rw [hk.said] at hsome
    exact hsome.trans hmore
  · have hr := hkept.ready hq.ready
    have hoffered : t.bus.ve.offered = [] := if_neg (by rw [hq.reported]; decide)
    rw [hoffered, List.append_nil] at hheard
    refine ⟨hr.asked, hr.answers, ?_⟩
    rw [hall hq.way, hk.said, hheard]

/-- A host that reads is told what it has asked for: whatever its commands, whenever the bus
stalls and answers, is interrupted or idle, and however much of it all has been sent, call after
call of `readword` returns the words the bus has answered, in order, each with where the next
one is; and all that were asked for when nothing is on its way. -/
theorem host_reads (h : hosted.Reachable t) (s : Reader)
    (hline : s.line = t.way.line.sent.map hostChar) : ∃ x : Script, x.fresh ∧
      t.bus.asked <+: x.requests t.bus.obeyed ∧
        s.readwords <+: x.heard t.bus.obeyed t.bus.answers ∧
          (t.Quiet → t.bus.asked = x.requests t.bus.obeyed ∧
            t.bus.answers.length = total t.bus.obeyed ∧
              s.readwords = x.heard t.bus.obeyed t.bus.answers) :=
  (Hosted.kept_of_reachable h).heard s hline

/-- Three words are read, and then it is quiet. -/
def hostThree : List HostClock :=
  readThree.map (fun i => ⟨i, false, false⟩) ++
    List.replicate 110 ⟨⟨false, false, ⟨0, 0⟩, false, false, false, 0⟩, false, false⟩

def newHosted : Hosted := ⟨newCommanding, newReporting⟩

theorem reachable_newHosted : hosted.Reachable newHosted :=
  System.reachable_init ⟨init_newCommanding, init_newReporting⟩

def heardThree : Hosted := hostThree.foldl hosted.next newHosted

theorem reachable_heardThree : hosted.Reachable heardThree := by
  have ha : hosted.Admits newHosted hostThree := by decide +kernel
  unfold heardThree
  exact reachable_newHosted.foldl ha

theorem quiet_heardThree : heardThree.Quiet :=
  ⟨by decide +kernel, by decide +kernel, ⟨by decide +kernel, by decide +kernel,
    by decide +kernel, ⟨by decide +kernel, by decide +kernel, by decide +kernel⟩⟩⟩

theorem obeyed_heardThree : heardThree.bus.obeyed = [⟨0, 0x100⟩, ⟨49, 3⟩] := by decide +kernel

theorem line_initial (t : Hosted) : (Reader.initial (t.way.line.sent.map hostChar)).line =
    t.way.line.sent.map hostChar := by
  simp only [Reader.initial]

theorem host_reads_three :
    (Reader.initial (heardThree.way.line.sent.map hostChar)).readwords =
      [(7, 0x404), (8, 0x408), (9, 0x40c)] := by
  obtain ⟨x, hfresh, -, -, hall⟩ := host_reads reachable_heardThree _ (line_initial heardThree)
  have hanswers : heardThree.bus.answers = [7, 8, 9] := by decide +kernel
  rw [(hall quiet_heardThree).2.2, obeyed_heardThree, hanswers]
  rfl

end S6Soc.WbUbus
