import Plctagt.Foundations.Paging
import Plctagt.Gui.Turns
import Plctagt.Tag.StringRoundTrip

/-! # Paging through Section 3

`scroll` is the first row of Section 3 that is drawn. Paging moves it without the active field;
drawing moves it back until the active field of Section 3 is shown. So the window is always inside
the section and shows what is edited, and paging shows every row while another section is active.
While Section 3 is, it does so only when the first and the last window both show the active field.
-/
namespace Plctagt.Gui
open Effects Decimal Tag Paging
set_option autoImplicit false

namespace NCursesUI
variable {con : Console} {ui ui' : NCursesUI}

/-! ## The window -/

structure InBounds (con : Console) (ui : NCursesUI) : Prop where
  nonneg : 0 ≤ ui.scroll
  le : ui.scroll ≤ max 0 (ui.sec3.length - con.vis)

theorem InBounds.congr (h : ui.InBounds con) (hscroll : ui'.scroll = ui.scroll)
    (hlen : ui'.sec3.length = ui.sec3.length) : ui'.InBounds con := by
  refine ⟨hscroll ▸ h.nonneg, ?_⟩
  rw [hscroll, hlen]
  exact h.le

theorem inBounds_zero (h : ui.scroll = 0) : ui.InBounds con :=
  ⟨h.ge, h.le.trans (le_max_left 0 _)⟩

theorem scroll_setValue (s : Fin 3) (i : ℕ) (v : Text) : (ui.setValue s i v).scroll = ui.scroll := by
  rw [setValue_frame]

theorem scroll_clearOptions (s : Fin 3) (i : ℕ) : (ui.clearOptions s i).scroll = ui.scroll := by
  rw [clearOptions_frame]

theorem length_setActive (v : Text) : (ui.setActive v).sec3.length = ui.sec3.length := by
  have hshape := ui.shape_setValue ui.actSec ui.actField v
  have hlen : (ui.setActive v).shape.length = ui.shape.length := by
    rw [setActive, hshape]
    split <;> rfl
  exact hlen

theorem drawScroll_inBounds (hvis : 1 ≤ con.vis) (h : ui.InBounds con)
    (hactive : ui.actField < ui.size ui.actSec) :
    0 ≤ ui.drawScroll con ∧ ui.drawScroll con ≤ max 0 (ui.sec3.length - con.vis) ∧
      (ui.actSec = 2 → ui.drawScroll con ≤ ui.actField ∧
        ui.actField < ui.drawScroll con + con.vis) := by
  have h0 := h.nonneg
  have hle := h.le
  by_cases hsec : ui.actSec = 2
  · have hlt : ui.actField < ui.sec3.length := by
      rw [hsec] at hactive
      exact hactive
    simp only [drawScroll, hsec, true_and]
    split_ifs <;> omega
  · simp only [drawScroll, hsec, false_and, if_false]
    exact ⟨h0, hle, fun h => absurd h (by decide)⟩

theorem scroll_pageUpSection3 :
    (ui.pageUpSection3 con).scroll =
      if ui.sec3.length ≤ con.vis then ui.scroll
      else if ui.scroll ≤ 0 then max 0 (ui.sec3.length - con.vis)
      else if ui.scroll - con.vis < 0 then 0 else ui.scroll - con.vis := by
  unfold pageUpSection3
  dsimp only
  split_ifs <;> rfl

theorem scroll_pageDownSection3 :
    (ui.pageDownSection3 con).scroll =
      if ui.sec3.length ≤ con.vis then ui.scroll
      else if ui.sec3.length - con.vis ≤ ui.scroll then 0
      else if ui.sec3.length - con.vis < ui.scroll + con.vis then max 0 (ui.sec3.length - con.vis)
      else ui.scroll + con.vis := by
  unfold pageDownSection3
  dsimp only
  split_ifs <;> rfl

theorem length_pageUpSection3 : (ui.pageUpSection3 con).sec3.length = ui.sec3.length :=
  congrArg Shape.length (shape_pageUpSection3 con ui)

theorem length_pageDownSection3 : (ui.pageDownSection3 con).sec3.length = ui.sec3.length :=
  congrArg Shape.length (shape_pageDownSection3 con ui)

theorem inBounds_pageUp (hvis : 1 ≤ con.vis) (h : ui.InBounds con) :
    (ui.pageUpSection3 con).InBounds con := by
  have h0 := h.nonneg
  have hle := h.le
  constructor
  · rw [scroll_pageUpSection3]
    split_ifs <;> omega
  · rw [scroll_pageUpSection3, length_pageUpSection3]
    split_ifs <;> omega

theorem inBounds_pageDown (hvis : 1 ≤ con.vis) (h : ui.InBounds con) :
    (ui.pageDownSection3 con).InBounds con := by
  have h0 := h.nonneg
  have hle := h.le
  constructor
  · rw [scroll_pageDownSection3]
    split_ifs <;> omega
  · rw [scroll_pageDownSection3, length_pageDownSection3]
    split_ifs <;> omega

theorem InBounds.update (hvis : 1 ≤ con.vis) (h : ui.InBounds con) (hu : Update con ui ui') :
    ui'.InBounds con := by
  cases hu with
  | quit => exact h.congr rfl rfl
  | stored hv => exact h.congr rfl rfl
  | focus saved s i f hf => exact h.congr rfl rfl
  | cursor p hp => exact h.congr rfl rfl
  | typed f hf v hv => exact h.congr (scroll_setValue _ _ _) (length_setActive v)
  | chosen f hf v hv => exact h.congr (scroll_setValue _ _ _) (length_setActive v)
  | forgotten f hf hlabel =>
    have hshape := shape_clearOptions ui _ _ (ui.not_count_of_tagname hf hlabel)
    exact h.congr (scroll_clearOptions _ _) (congrArg Shape.length hshape)
  | cleared => exact h.congr rfl (List.length_map _)
  | filled values => exact inBounds_zero rfl
  | stringType => exact h.congr rfl (List.length_map _)
  | widths => exact h.congr rfl (List.length_map _)
  | counted n => exact h.congr rfl rfl
  | compared v => exact h.congr rfl rfl
  | fleshed n => exact h.congr rfl rfl
  | pagedUp => exact inBounds_pageUp hvis h
  | pagedDown => exact inBounds_pageDown hvis h
  | drawn ui' hdrawn =>
    obtain ⟨f, hf, rfl⟩ := drawn_eq hdrawn
    have hactive := (List.getElem?_eq_some_iff.mp hf).1
    rw [length_fields] at hactive
    obtain ⟨h0, hle, -⟩ := drawScroll_inBounds hvis h hactive
    have hlen : (ui.drawSection3Fields con).sec3.length = ui.sec3.length := List.length_mapIdx
    exact ⟨h0, hlen ▸ hle⟩

/-- After a redraw: the window is inside Section 3, and shows the field that is edited there. -/
theorem window_of_reached (hvis : 1 ≤ con.vis) (h : ui.Reached con fun _ _ _ => True)
    (hrun : ui.running = true) :
    ui.InBounds con ∧ ui.actField < ui.size ui.actSec ∧
      (ui.actSec = 2 → ui.scroll ≤ ui.actField ∧ ui.actField < ui.scroll + con.vis) := by
  obtain ⟨hin, hdrawn⟩ := h.drawn (fun _ _ => inBounds_zero rfl) fun _ _ h hu => h.update hvis hu
  obtain ⟨ui₁, hin₁, hdrawn⟩ := hdrawn hrun
  obtain ⟨f, hf, heq⟩ := drawn_eq hdrawn
  have hactive := (List.getElem?_eq_some_iff.mp hf).1
  rw [length_fields] at hactive
  have hshape := shape_drawn hdrawn
  have hsec : ui.actSec = ui₁.actSec := congrArg Shape.actSec hshape
  have hfield : ui.actField = ui₁.actField := congrArg Shape.actField hshape
  have hsize : ui.size ui.actSec = ui₁.size ui₁.actSec := by
    rw [← size_shape, ← size_shape, hshape, hsec]
  have hscroll : ui.scroll = ui₁.drawScroll con := by
    rw [heq]
    rfl
  rw [hsize, hfield, hsec, hscroll]
  exact ⟨hin, hactive, (drawScroll_inBounds hvis hin₁ hactive).2.2⟩

/-! ## Paging -/

/-- The rows that were drawn. -/
def Displays (con : Console) (ui : NCursesUI) (i : ℕ) : Prop :=
  ui.scroll ≤ i ∧ i < ui.scroll + con.vis

/-- The window of the screen. -/
structure Views (con : Console) (ui : NCursesUI) (w : Window) : Prop where
  total : w.total = ui.sec3.length
  height : (w.height : ℤ) = con.vis
  top : (w.top : ℤ) = ui.scroll

theorem exists_views (hvis : 1 ≤ con.vis) (h : ui.InBounds con) : ∃ w, ui.Views con w := by
  have h0 := h.nonneg
  have hle := h.le
  exact ⟨⟨ui.sec3.length, con.vis.toNat, ui.scroll.toNat, by omega⟩, rfl, by simp; omega, by simp; omega⟩

theorem Views.displays {w : Window} (h : ui.Views con w) {i : ℕ} (hs : w.Shows i) :
    ui.Displays con i := by
  have htop := h.top
  have hheight := h.height
  obtain ⟨hle, hlt⟩ := hs
  constructor <;> omega

theorem Views.pageDown {w : Window} (h : ui.Views con w) :
    (ui.pageDownSection3 con).Views con w.next := by
  have hle := w.le
  have htotal := h.total
  have hheight := h.height
  have htop := h.top
  refine ⟨?_, by rw [Window.height_next, hheight], ?_⟩
  · rw [Window.total_next, htotal, length_pageDownSection3]
  · rw [Window.top_next, scroll_pageDownSection3]
    split_ifs <;> omega

theorem Views.pageUp {w : Window} (h : ui.Views con w) :
    (ui.pageUpSection3 con).Views con w.prev := by
  have hle := w.le
  have htotal := h.total
  have hheight := h.height
  have htop := h.top
  refine ⟨?_, by rw [Window.height_prev, hheight], ?_⟩
  · rw [Window.total_prev, htotal, length_pageUpSection3]
  · rw [Window.top_prev, scroll_pageUpSection3]
    split_ifs <;> omega

/-- A paging key, the function it calls, and what that is on windows. -/
structure Pages (con : Console) (key : Key) (page : NCursesUI → NCursesUI)
    (move : Window → Window) : Prop where
  press : ∀ f ui, NCursesUI.press con key f ui = pure (page ui)
  ne_enter : key ≠ .byte 10
  scrolls : ∀ ui, ∃ s, page ui = { ui with scroll := s }
  views : ∀ ui w, ui.Views con w → (page ui).Views con (move w)
  covers : ∀ w i, Window.Has w i → ∃ n, (move^[n] w).Shows i

theorem pages_down : Pages con .npage (pageDownSection3 con) Window.next where
  press _ _ := rfl
  ne_enter := by decide
  scrolls ui := ui.pageDownSection3_scrolls con
  views _ _ h := h.pageDown
  covers _ _ h := Window.next_covers h

theorem pages_up : Pages con .ppage (pageUpSection3 con) Window.prev where
  press _ _ := rfl
  ne_enter := by decide
  scrolls ui := ui.pageUpSection3_scrolls con
  views _ _ h := h.pageUp
  covers _ _ h := Window.prev_covers h

/-! ## Pressing the key again and again -/

section Pages
variable {key : Key} {page : NCursesUI → NCursesUI} {move : Window → Window}

theorem Pages.shape (hp : Pages con key page move) (ui : NCursesUI) :
    (page ui).shape = ui.shape ∧ (page ui).running = ui.running := by
  obtain ⟨s, heq⟩ := hp.scrolls ui
  rw [heq]
  exact ⟨rfl, rfl⟩

theorem drawScroll_checkTypeChange :
    (ui.checkTypeChange con).drawScroll con = ui.drawScroll con := by
  unfold checkTypeChange
  split <;> rfl

/-- One press: the section is looked at, the window is moved, and moved back to the active field. -/
theorem turn_page (hp : Pages con key page move) (hrun : ui.running = true)
    (hactive : ui.actField < ui.size ui.actSec) :
    ∃ ui', ui.turn con key = pure ui' ∧ ui'.running = true ∧ ui'.shape = ui.shape.look ∧
      (ui.shape.Settled → ui'.scroll = (page ui).drawScroll con) := by
  have hpshape := (hp.shape ui).1
  have hsec : (page ui).actSec = ui.actSec := congrArg Shape.actSec hpshape
  have hfield : (page ui).actField = ui.actField := congrArg Shape.actField hpshape
  have hlooked : (looked con ui (page ui)).shape = ui.shape.look := by
    rw [shape_looked hsec hfield, hpshape]
  have hinside : (looked con ui (page ui)).actField <
      (looked con ui (page ui)).size (looked con ui (page ui)).actSec := by
    rw [← size_shape]
    show (looked con ui (page ui)).shape.actField <
      (looked con ui (page ui)).shape.size (looked con ui (page ui)).shape.actSec
    rw [hlooked]
    rw [← size_shape] at hactive
    exact Shape.look_inside hactive
  rw [← length_fields] at hactive hinside
  have hturn := turn_of_press (List.getElem?_eq_getElem hactive) hp.ne_enter (hp.press _ ui)
  have hrunning : (looked con ui (page ui)).running = true := by
    rw [running_looked, (hp.shape ui).2, hrun]
  have hdraw := updateUI_eq con (List.getElem?_eq_getElem hinside)
  rw [if_pos hrunning, hdraw] at hturn
  refine ⟨_, hturn, hrunning, (shape_drawn hdraw).trans hlooked, fun hset => ?_⟩
  show (looked con ui (page ui)).drawScroll con = _
  rw [looked_of_settled hsec hfield (hpshape ▸ hset), drawScroll_checkTypeChange]

theorem turns_page (hvis : 1 ≤ con.vis) (hp : Pages con key page move)
    (h : ui.Reached con fun _ _ _ => True) (hrun : ui.running = true) (n : ℕ) :
    ∃ ui', ui.turns con (List.replicate n key) = pure ui' ∧
      (ui'.Reached con fun _ _ _ => True) ∧ ui'.running = true ∧
      ui'.shape = Shape.look^[n] ui.shape := by
  induction n with
  | zero => exact ⟨ui, rfl, h, hrun, rfl⟩
  | succ n ih =>
    obtain ⟨ui₁, hturns, h₁, hrun₁, hshape⟩ := ih
    have hactive := (window_of_reached hvis h₁ hrun₁).2.1
    obtain ⟨ui', hturn, hrun', hshape', -⟩ := turn_page hp hrun₁ hactive
    refine ⟨ui', ?_, h₁.turn_pure hrun₁ hturn, hrun', ?_⟩
    · rw [List.replicate_succ', turns_concat, hturns, ret_bind, hturn]
    · rw [hshape', hshape, Function.iterate_succ_apply']

/-- The active field is in another section, or the first and the last window both show it. -/
def Free (con : Console) (ui : NCursesUI) : Prop :=
  ui.actSec = 2 → ui.sec3.length - con.vis ≤ ui.actField ∧ ui.actField < con.vis

theorem drawScroll_of_free (hfree : ui.Free con) (h : ui.InBounds con) :
    ui.drawScroll con = ui.scroll := by
  have h0 := h.nonneg
  have hle := h.le
  by_cases hsec : ui.actSec = 2
  · obtain ⟨hlast, hfirst⟩ := hfree hsec
    simp only [drawScroll, hsec, true_and]
    split_ifs <;> omega
  · simp only [drawScroll, hsec, false_and, if_false]

theorem Views.inBounds {w : Window} (h : ui.Views con w) : ui.InBounds con := by
  have hle := w.le
  have htotal := h.total
  have hheight := h.height
  have htop := h.top
  constructor <;> omega

/-- When nothing moves the window back, the presses move it as paging does. -/
theorem turns_page_free (hvis : 1 ≤ con.vis) (hp : Pages con key page move)
    (h : ui.Reached con fun _ _ _ => True) (hrun : ui.running = true) (hset : ui.shape.Settled)
    (hfree : ui.Free con) {w : Window} (hw : ui.Views con w) (n : ℕ) :
    ∃ ui', ui.turns con (List.replicate n key) = pure ui' ∧
      (ui'.Reached con fun _ _ _ => True) ∧ ui'.running = true ∧ ui'.shape = ui.shape ∧
      ui'.Views con (move^[n] w) := by
  induction n with
  | zero => exact ⟨ui, rfl, h, hrun, rfl, hw⟩
  | succ n ih =>
    obtain ⟨ui₁, hturns, h₁, hrun₁, hshape, hw₁⟩ := ih
    have hactive := (window_of_reached hvis h₁ hrun₁).2.1
    obtain ⟨ui', hturn, hrun', hshape', hscroll⟩ := turn_page hp hrun₁ hactive
    have hset₁ : ui₁.shape.Settled := hshape ▸ hset
    rw [hset₁.look] at hshape'
    have hpage := hp.views _ _ hw₁
    have hpshape : (page ui₁).shape = ui.shape := (hp.shape ui₁).1.trans hshape
    have hfree₁ : (page ui₁).Free con := by
      intro hsec
      have hsec' : ui.actSec = 2 := (congrArg Shape.actSec hpshape).symm.trans hsec
      have hlen : (page ui₁).sec3.length = ui.sec3.length := congrArg Shape.length hpshape
      have hfield : (page ui₁).actField = ui.actField := congrArg Shape.actField hpshape
      rw [hlen, hfield]
      exact hfree hsec'
    have hview : ui'.Views con (move (move^[n] w)) := by
      have hlen : ui'.sec3.length = (page ui₁).sec3.length :=
        congrArg Shape.length (hshape'.trans (hp.shape ui₁).1.symm)
      refine ⟨hpage.total.trans hlen.symm, hpage.height, ?_⟩
      rw [hscroll hset₁, drawScroll_of_free hfree₁ hpage.inBounds]
      exact hpage.top
    refine ⟨ui', ?_, h₁.turn_pure hrun₁ hturn, hrun', hshape'.trans hshape, ?_⟩
    · rw [List.replicate_succ', turns_concat, hturns, ret_bind, hturn]
    · rwa [Function.iterate_succ_apply']

/-- Pressing the key alone, often enough, draws every row of the Section 3 that is there then. -/
def Covers (con : Console) (key : Key) (ui : NCursesUI) : Prop :=
  ∃ N ui', ui.turns con (List.replicate N key) = pure ui' ∧
    ∀ i < ui'.sec3.length, ∃ n ≤ N, ∃ uiₙ, ui.turns con (List.replicate n key) = pure uiₙ ∧
      uiₙ.sec3.length = ui'.sec3.length ∧ uiₙ.Displays con i

/-- While Section 3 is active nothing but rows around the active field is drawn. -/
theorem free_of_covers (hvis : 1 ≤ con.vis) (hp : Pages con key page move)
    (h : ui.Reached con fun _ _ _ => True) (hrun : ui.running = true) (hcovers : ui.Covers con key) :
    ui.Free con := by
  intro hsec
  obtain ⟨N, ui', hN, hall⟩ := hcovers
  have hsame : ∀ n uiₙ, ui.turns con (List.replicate n key) = pure uiₙ →
      uiₙ.shape = ui.shape ∧ uiₙ.scroll ≤ ui.actField ∧ ui.actField < uiₙ.scroll + con.vis := by
    intro n uiₙ hn
    obtain ⟨ui₁, hturns, h₁, hrun₁, hshape⟩ := turns_page hvis hp h hrun n
    obtain rfl := pure_injective (hn.symm.trans hturns)
    have hlook : ui.shape.look = ui.shape := (Shape.settled_of_sec3 hsec).look
    rw [Function.iterate_fixed hlook] at hshape
    have hfield : uiₙ.actField = ui.actField := congrArg Shape.actField hshape
    have hsec₁ : uiₙ.actSec = 2 := (congrArg Shape.actSec hshape).trans hsec
    have hshown := (window_of_reached hvis h₁ hrun₁).2.2 hsec₁
    rw [hfield] at hshown
    exact ⟨hshape, hshown⟩
  have hlen : ui'.sec3.length = ui.sec3.length := congrArg Shape.length (hsame N ui' hN).1
  have hactive := (window_of_reached hvis h hrun).2.1
  rw [hsec] at hactive
  have hactive : ui.actField < ui.sec3.length := hactive
  obtain ⟨n, -, ui₁, hn, -, hfirst, -⟩ := hall 0 (by omega)
  obtain ⟨m, -, ui₂, hm, -, -, hlast⟩ := hall (ui'.sec3.length - 1) (by omega)
  obtain ⟨-, -, hlt⟩ := hsame n ui₁ hn
  obtain ⟨-, hle, -⟩ := hsame m ui₂ hm
  omega

theorem covers_of_free (hvis : 1 ≤ con.vis) (hp : Pages con key page move)
    (h : ui.Reached con fun _ _ _ => True) (hrun : ui.running = true) (hfree : ui.Free con) :
    ui.Covers con key := by
  -- after two presses the count is settled
  obtain ⟨ui₂, hturns, h₂, hrun₂, hshape⟩ := turns_page hvis hp h hrun 2
  have hset : ui₂.shape.Settled := hshape ▸ ui.shape.look_settles
  have hfree₂ : ui₂.Free con := by
    intro hsec
    have hsec' : ui.shape.look.look.actSec = 2 := (congrArg Shape.actSec hshape).symm.trans hsec
    rw [ui.shape.look.look_active.1, ui.shape.look_active.1] at hsec'
    have hlook : ui.shape.look = ui.shape := (Shape.settled_of_sec3 hsec').look
    have hsame : ui₂.shape = ui.shape := by rw [hshape, Function.iterate_fixed hlook]
    have hlen : ui₂.sec3.length = ui.sec3.length := congrArg Shape.length hsame
    have hfield : ui₂.actField = ui.actField := congrArg Shape.actField hsame
    rw [hlen, hfield]
    exact hfree hsec'
  obtain ⟨w, hw⟩ := exists_views hvis (window_of_reached hvis h₂ hrun₂).1
  have hrows : ∀ i < ui₂.sec3.length, ∃ n, (move^[n] w).Shows i := by
    intro i hi
    have hheight := hw.height
    exact hp.covers w i ⟨by omega, hw.total ▸ hi⟩
  obtain ⟨N, hN⟩ := exists_bound _ hrows
  have hgo : ∀ n, ∃ ui', ui.turns con (List.replicate (2 + n) key) = pure ui' ∧
      ui'.shape = ui₂.shape ∧ ui'.Views con (move^[n] w) := by
    intro n
    obtain ⟨ui', hturns', -, -, hshape', hw'⟩ := turns_page_free hvis hp h₂ hrun₂ hset hfree₂ hw n
    refine ⟨ui', ?_, hshape', hw'⟩
    rw [List.replicate_add, turns_append, hturns, ret_bind, hturns']
  obtain ⟨ui', hturns', hshape', -⟩ := hgo N
  refine ⟨2 + N, ui', hturns', fun i hi => ?_⟩
  have hlen : ui'.sec3.length = ui₂.sec3.length := congrArg Shape.length hshape'
  obtain ⟨n, hn, hshows⟩ := hN i (hlen ▸ hi)
  obtain ⟨uiₙ, hturnsₙ, hshapeₙ, hwₙ⟩ := hgo n
  refine ⟨2 + n, by omega, uiₙ, hturnsₙ, ?_, hwₙ.displays hshows⟩
  exact congrArg Shape.length (hshapeₙ.trans hshape'.symm)

end Pages

/-- In every state that waits for a key, the window is inside Section 3, and shows the active field
when that section is active; and PageDown alone, or PageUp alone, comes by every row just when
Section 3 is not active, or its first and its last window both show the active field. -/
theorem paging_of_reached (hvis : 1 ≤ con.vis) (h : ui.Reached con fun _ _ _ => True)
    (hrun : ui.running = true) :
    (0 ≤ ui.scroll ∧ ui.scroll ≤ max 0 (ui.sec3.length - con.vis)) ∧
    (ui.actSec = 2 → ui.scroll ≤ ui.actField ∧ ui.actField < ui.scroll + con.vis) ∧
    (ui.Covers con .npage ↔ ui.Free con) ∧ (ui.Covers con .ppage ↔ ui.Free con) := by
  obtain ⟨hin, -, hshown⟩ := window_of_reached hvis h hrun
  refine ⟨⟨hin.nonneg, hin.le⟩, hshown, ?_, ?_⟩
  · exact ⟨free_of_covers hvis pages_down h hrun, covers_of_free hvis pages_down h hrun⟩
  · exact ⟨free_of_covers hvis pages_up h hrun, covers_of_free hvis pages_up h hrun⟩

/-- Forty rows on a terminal that shows eighteen. -/
abbrev fortyRows (keys : List Key) : Option (NCursesUI × World) :=
  session Console.plain [text "Count:=40"] [] (World.bench 1 swappedStrings.1 swappedStrings.2 [])
    keys

theorem paging_of_reached_section1 :
    ∃ s, fortyRows [] = some s ∧ s.1.sec3.length = 40 ∧ s.1.Covers Console.plain .npage := by
  have hend : (fortyRows []).map (fun s => (s.1.running, s.1.actSec, s.1.sec3.length)) =
      some (true, 0, 40) := by decide +kernel
  obtain ⟨s, hs, hval⟩ := Option.map_eq_some_iff.mp hend
  obtain ⟨hrun, hval⟩ := Prod.mk.inj hval
  obtain ⟨hsec, hlen⟩ := Prod.mk.inj hval
  have hreached : s.1.Reached Console.plain fun _ _ _ => True :=
    reached_session _ hs fun _ _ _ _ => trivial
  refine ⟨s, hs, hlen, (paging_of_reached (by decide) hreached hrun).2.2.1.mpr fun h => ?_⟩
  rw [hsec] at h
  exact absurd h (by decide)

/-- In Section 3, at its first row: the window never gets to the rows from the nineteenth on. -/
theorem paging_stuck :
    ∃ ui : NCursesUI, (ui.Reached Console.plain fun _ _ _ => True) ∧ ui.running = true ∧
      1 ≤ Console.plain.vis ∧ ui.actSec = 2 ∧ ui.actField = 0 ∧ ui.sec3.length = 40 ∧
      ¬ui.Covers Console.plain .npage ∧ ¬ui.Covers Console.plain .ppage := by
  have hend : (fortyRows [.byte 4, .byte 4]).map
      (fun s => (s.1.running, s.1.actSec, s.1.actField, s.1.sec3.length)) =
      some (true, 2, 0, 40) := by decide +kernel
  obtain ⟨s, hs, hval⟩ := Option.map_eq_some_iff.mp hend
  obtain ⟨hrun, hval⟩ := Prod.mk.inj hval
  obtain ⟨hsec, hval⟩ := Prod.mk.inj hval
  obtain ⟨hfield, hlen⟩ := Prod.mk.inj hval
  have hreached : s.1.Reached Console.plain fun _ _ _ => True :=
    reached_session _ hs fun _ _ _ _ => trivial
  have hvis : 1 ≤ Console.plain.vis := by decide
  have hstuck : ¬s.1.Free Console.plain := by
    intro hfree
    have hlast := (hfree hsec).1
    rw [hfield, hlen] at hlast
    exact absurd hlast (by decide)
  refine ⟨s.1, hreached, hrun, hvis, hsec, hfield, hlen, fun h => hstuck ?_, fun h => hstuck ?_⟩
  · exact free_of_covers hvis pages_down hreached hrun h
  · exact free_of_covers hvis pages_up hreached hrun h

end NCursesUI

end Plctagt.Gui
