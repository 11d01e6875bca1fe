import XExpr.Base.Refine
import XExpr.Io.State

/-!
# Buffered and direct output

Writes go to the buffer in the write-buf field of the base, or to the output file when there is
none. The field is assigned, pushed and popped between the writes.

* `Output`, `OutputOp.apply`: where output goes, and what each destination was given.
* `Streams`: the memory holds what the destinations were given, and nothing else has changed.
* `StreamInv`: the invariant of a run; `xBaseWrite_run` is the write, one lemma follows for each of
  the other operations.
* `write_streams`: after every run each destination has got the pieces that were written while it
  was the current one.
-/

namespace XExpr

open Sys
open Mem (chase)

/-! ## Where output goes -/

/-- The current destination and the saved ones, what each destination was given, and the number of
pushes. A destination is a buffer object, or `nil` for the file. -/
structure Output where
  current : Ptr
  saved : List Ptr
  written : Ptr → List XChar
  pushed : Nat

inductive OutputOp
  | write (piece : List XChar)
  /-- An assignment of the field; `nil` disables the buffer. -/
  | install (buf : Ptr)
  | push (buf : Ptr)
  | pop
deriving DecidableEq

namespace Output

def write (o : Output) (piece : List XChar) : Output :=
  { o with written := Function.update o.written o.current (o.written o.current ++ piece) }

def install (o : Output) (buf : Ptr) : Output := { o with current := buf }

def push (o : Output) (buf : Ptr) : Output :=
  { o with current := buf, saved := o.current :: o.saved, pushed := o.pushed + 1 }

end Output

def OutputOp.apply : OutputOp → Output → Option Output
  | write piece, o => some (o.write piece)
  | install buf, o => some (o.install buf)
  | push buf, o => some (o.push buf)
  | pop, ⟨_, u :: us, written, pushed⟩ => some ⟨u, us, written, pushed⟩
  | pop, ⟨_, [], _, _⟩ => none

/-- The base, with the destinations in its write-buf field. A full base counts the pairs that hold
the saved ones. -/
def Output.record (o : Output) (ρ : Record) (full : Prop) [Decidable full] : Record :=
  Function.update (ρ.addCount (if full then o.pushed else 0)) .writeBuf
    ⟨.obj o.current, o.saved.map .obj⟩

/-! ## Buffers and sources -/

/-- A write buffer: the pair `(dst . pos)`, its two parts, where the position starts, and how many
bytes there is room for from there on. -/
structure WriteBuffer where
  obj : Ptr
  posAtom : Ptr
  dst : Ptr
  start : Int
  room : Nat

namespace WriteBuffer

/-- The address of the first byte that is written. -/
def base (B : WriteBuffer) : Ptr := B.dst + B.start

/-- The buffer is at the position `pos`. -/
structure At (B : WriteBuffer) (s : Sys) (pos : Int) : Prop where
  first : s.unit B.obj 0 = some B.dst
  rest : s.unit B.obj 1 = some B.posAtom
  value : s.unit B.posAtom 0 = some pos

/-- Buffers that share nothing. -/
def Apart (B B' : WriteBuffer) : Prop :=
  B.obj ≠ B'.obj ∧ B.posAtom ≠ B'.posAtom ∧
    ∀ x, Bytes.In B.base B.room x → ¬ Bytes.In B'.base B'.room x

end WriteBuffer

/-- The destinations: no buffer, or one of the buffers. -/
def IsSink (bufs : List WriteBuffer) (p : Ptr) : Prop := p = nil ∨ ∃ B ∈ bufs, B.obj = p

/-- The arguments `(atom size)`, with the piece in memory, where no buffer is. -/
structure Source (bufs : List WriteBuffer) (s : Io) (args atom : Ptr) (piece : List XChar) :
    Prop where
  first : s.sys.unit args 0 = some atom
  size : ∃ r k, s.sys.unit args 1 = some r ∧ s.sys.unit r 0 = some k ∧
    s.sys.unit k 0 = some (piece.length : Int)
  max : (piece.length : Int) ≤ xIntMax
  text : ∃ src, s.sys.unit atom 0 = some src ∧ Bytes.At s.bytes src piece ∧
    ∀ B ∈ bufs, ∀ x, Bytes.In src piece.length x → ¬ Bytes.In B.base B.room x

/-- There is room for what each buffer was given. -/
def Output.Fits (o : Output) (bufs : List WriteBuffer) : Prop :=
  ∀ B ∈ bufs, (o.written B.obj).length ≤ B.room

/-- The operations of the library. -/
inductive OutputOp.Run (env : Env) (taken : Nat → Int) (b : Ptr) (bufs : List WriteBuffer) :
    OutputOp → Io → Io → Prop
  | write {args atom r : Ptr} {piece : List XChar} {s s' : Io} (hs : Source bufs s args atom piece)
      (h : xBaseWrite taken b args s = .ok r s') : OutputOp.Run env taken b bufs (.write piece) s s'
  | install {buf : Ptr} {s s' : Io} (hb : IsSink bufs buf)
      (h : onSys (Field.writeBuf.setObj b buf) s = .ok () s') :
      OutputOp.Run env taken b bufs (.install buf) s s'
  | push {buf slot r : Ptr} {fl : Flags} {s s' : Io} (hb : IsSink bufs buf)
      (hs : Field.writeBuf.addr b s.sys = .ok slot s.sys)
      (h : onSys (xObjPushField env b slot buf fl) s = .ok r s') :
      OutputOp.Run env taken b bufs (.push buf) s s'
  | pop {slot r : Ptr} {s s' : Io} (hs : Field.writeBuf.addr b s.sys = .ok slot s.sys)
      (h : onSys (xObjPopField slot) s = .ok r s') : OutputOp.Run env taken b bufs .pop s s'

/-! ## What a run leaves -/

/-- Each destination holds what it was given, a buffer from its first position on, and the rest of
the memory is as it was. -/
structure Streams (s₀ : Io) (bufs : List WriteBuffer) (fd : Int) (o : Output) (s : Io) :
    Prop where
  files : s.files = Function.update s₀.files fd (s₀.files fd ++ o.written nil)
  contents : ∀ B ∈ bufs, Bytes.At s.bytes B.base (o.written B.obj)
  outside : ∀ x, (∀ B ∈ bufs, ¬ Bytes.In B.base (o.written B.obj).length x) →
    s.bytes x = s₀.bytes x
  buffer : ∀ B ∈ bufs, B.At s.sys (B.start + (o.written B.obj).length)

/-- The buffers, apart from each other and with room in memory. -/
structure Buffers (bufs : List WriteBuffer) (bytes : Ptr → Option XChar) : Prop where
  apart : bufs.Pairwise WriteBuffer.Apart
  pos : ∀ B ∈ bufs, ∀ B' ∈ bufs, B.posAtom ≠ B'.obj
  mapped : ∀ B ∈ bufs, ∀ x, Bytes.In B.base B.room x → ∃ c, bytes x = some c

/-- The invariant of a run from `s₀`. -/
structure StreamInv (s₀ : Io) (b : Ptr) (ρ : Record) (bufs : List WriteBuffer) (w : Word)
    (o : Output) (s : Io) : Prop extends Streams s₀ bufs (toCInt w) o s where
  tree : ∃ t, BaseTree s.sys b t (o.record ρ (s₀.sys.Full b)).cell ∧
    ∀ B ∈ bufs, B.obj ∉ b :: t.nodes ∧ B.posAtom ∉ b :: t.nodes
  full : s.sys.Full b ↔ s₀.sys.Full b
  sinks : ∀ p ∈ o.current :: o.saved, IsSink bufs p
  buffers : Buffers bufs s.bytes

/-- A set base with buffers, before the first operation. The current value of its fileout field is
an atom of the base with the integer `w`. -/
structure OutputStart (s : Io) (b : Ptr) (ρ : Record) (bufs : List WriteBuffer) (w : Word)
    (o : Output) : Prop where
  tree : ∃ t, BaseTree s.sys b t ρ.cell ∧
    ∀ B ∈ bufs, B.obj ∉ b :: t.nodes ∧ B.posAtom ∉ b :: t.nodes
  counts : ρ.Counts (s.sys.Full b)
  fileout : (ρ .fileout).current = .int w
  writeBuf : ρ .writeBuf = ⟨.obj o.current, o.saved.map .obj⟩
  sinks : ∀ p ∈ o.current :: o.saved, IsSink bufs p
  buffers : Buffers bufs s.bytes
  buffer : ∀ B ∈ bufs, B.At s.sys B.start
  written : ∀ p, o.written p = []
  pushed : o.pushed = 0

variable {env : Env} {taken : Nat → Int} {s₀ s s' : Io} {b args atom p : Ptr} {ρ : Record}
  {bufs : List WriteBuffer} {w : Word} {o o' : Output} {piece : List XChar} {op : OutputOp}
  {B B' : WriteBuffer}

/-! ## The buffers -/

instance : Std.Symm WriteBuffer.Apart where
  symm _ _ h := ⟨h.1.symm, h.2.1.symm, fun x hx hx' => h.2.2 x hx' hx⟩

/-- A buffer changes with the units of its two objects only. -/
theorem WriteBuffer.At.congr {s s' : Sys} {pos : Int} (h : B.At s pos)
    (h₁ : ∀ i, s'.unit B.obj i = s.unit B.obj i)
    (h₂ : s'.unit B.posAtom 0 = s.unit B.posAtom 0) : B.At s' pos :=
  ⟨(h₁ 0).trans h.first, (h₁ 1).trans h.rest, h₂.trans h.value⟩

namespace Buffers

variable {m : Ptr → Option XChar} {a : Ptr}

theorem eq_or_apart (h : Buffers bufs m) (hB : B ∈ bufs) (hB' : B' ∈ bufs) :
    B = B' ∨ B.Apart B' := by
  by_cases e : B = B'
  · exact .inl e
  · exact .inr (h.apart.forall hB hB' e)

/-- A store leaves memory where there was memory. -/
theorem store (h : Buffers bufs m) : Buffers bufs (Bytes.store m a piece) := by
  refine ⟨h.apart, h.pos, fun B hB x hx => ?_⟩
  by_cases hin : Bytes.In a piece.length x
  · obtain ⟨i, hi, rfl⟩ := Bytes.in_iff.mp hin
    exact ⟨piece[i], by rw [Bytes.store_in hi, List.getElem?_eq_getElem hi]⟩
  · obtain ⟨c, hc⟩ := h.mapped B hB x hx
    exact ⟨c, by rw [Bytes.store_out hin, hc]⟩

end Buffers

/-! ## The record -/

theorem Output.record_writeBuf {full : Prop} [Decidable full] :
    o.record ρ full .writeBuf = ⟨.obj o.current, o.saved.map .obj⟩ := Function.update_self ..

theorem Output.record_other {full : Prop} [Decidable full] {f : Field} (hf : f ≠ .writeBuf)
    (hf' : f ≠ .allocCount) : o.record ρ full f = ρ f := by
  rw [Output.record, Function.update_of_ne hf, Record.addCount, Function.update_of_ne hf']

theorem Record.addCount_addCount {j k : Int} : (ρ.addCount j).addCount k = ρ.addCount (j + k) := by
  have hv : ∀ v : Value, (v.add j).add k = v.add (j + k) := by
    intro v
    cases v <;> simp [Value.add, add_assoc]
  simp only [Record.addCount, Function.update_self, Function.update_idem, hv]

theorem Record.addCount_update {f : Field} {σ : Stack} {k : Int} (hf : f ≠ .allocCount) :
    Record.addCount (Function.update ρ f σ) k = Function.update (ρ.addCount k) f σ := by
  rw [Record.addCount, Record.addCount, Function.update_of_ne hf.symm,
    Function.update_comm hf.symm]

theorem Output.record_counts {full full' : Prop} [Decidable full] (hc : ρ.Counts full') :
    (o.record ρ full).Counts full' := fun hf => by
  obtain ⟨n, hn⟩ := hc hf
  refine ⟨n + if full then (o.pushed : Int) else 0, ?_⟩
  rw [Output.record, Function.update_of_ne (by decide), Record.addCount, Function.update_self, hn]
  rfl

theorem Output.record_install {full : Prop} [Decidable full] (p : Ptr) :
    Function.update (o.record ρ full) .writeBuf
      ⟨.obj p, (o.record ρ full .writeBuf).saved⟩ = (o.install p).record ρ full := by
  rw [Output.record_writeBuf, Output.record, Function.update_idem]
  rfl

theorem Output.record_push {full : Prop} [Decidable full] (p : Ptr) :
    Function.update ((o.record ρ full).addCount (if full then 1 else 0)) .writeBuf
      ⟨.obj p, (o.record ρ full .writeBuf).current :: (o.record ρ full .writeBuf).saved⟩ =
    (o.push p).record ρ full := by
  rw [Output.record_writeBuf, Output.record, Record.addCount_update (by decide),
    Record.addCount_addCount, Function.update_idem, Output.record]
  congr 2
  split <;> simp [Output.push]

/-! ## One operation -/

namespace StreamInv

theorem isSet (h : StreamInv s₀ b ρ bufs w o s) : s.sys.IsSet b := by
  obtain ⟨t, ht, -⟩ := h.tree
  exact ht.isSet

theorem writeBuf_run (h : StreamInv s₀ b ρ bufs w o s) :
    baseWriteBuf b s.sys = .ok o.current s.sys := by
  obtain ⟨t, ht, -⟩ := h.tree
  rw [baseWriteBuf, Prog.bind_of_ok (xBaseIsset_run h.isSet), if_pos rfl]
  exact Field.obj_run (ht.currentObj (by rw [Output.record_writeBuf]))

theorem fd_run (h : StreamInv s₀ b ρ bufs w o s) (hf : (ρ .fileout).current = .int w) (std : Int) :
    baseFd .fileout std b s.sys = .ok (toCInt w) s.sys := by
  obtain ⟨t, ht, -⟩ := h.tree
  have hint := ht.currentInt (f := .fileout) (w := w)
    (by rw [Output.record_other (by decide) (by decide), hf])
  rw [baseFd, Prog.bind_of_ok (xBaseIsset_run h.isSet), if_pos rfl,
    Prog.bind_of_ok (Field.int_run hint)]
  rfl

/-- The objects of a buffer are there, and are no part of the base. -/
theorem buffer_live (h : StreamInv s₀ b ρ bufs w o s) (hB : B ∈ bufs) :
    s.sys.Live B.obj ∧ s.sys.Live B.posAtom :=
  ⟨live_of_unit (h.buffer B hB).first, live_of_unit (h.buffer B hB).value⟩

/-! ### Writes -/

/-- A write to the file. -/
theorem writeFile (h : StreamInv s₀ b ρ bufs w o s) (hc : o.current = nil) :
    StreamInv s₀ b ρ bufs w (o.write piece)
      { s with files :=
        Function.update s.files (toCInt w) (s.files (toCInt w) ++ piece) } := by
  have hw : ∀ B ∈ bufs, (o.write piece).written B.obj = o.written B.obj := fun B hB =>
    Function.update_of_ne (hc ▸ (h.buffer_live hB).1.ne_nil) _ _
  constructor
  case tree => exact h.tree
  case full => exact h.full
  case sinks => exact h.sinks
  case buffers => exact h.buffers
  constructor
  case files =>
    have he : (o.write piece).written nil = o.written nil ++ piece := by
      rw [← hc]
      exact Function.update_self ..
    dsimp only
    rw [h.files, Function.update_idem, Function.update_self, he, List.append_assoc]
  case contents =>
    intro B hB
    rw [hw B hB]
    exact h.contents B hB
  case outside =>
    refine fun x hx => h.outside x fun B hB => ?_
    rw [← hw B hB]
    exact hx B hB
  case buffer =>
    intro B hB
    rw [hw B hB]
    exact h.buffer B hB

/-- A write to a buffer with room for the piece. -/
theorem writeBuffer (h : StreamInv s₀ b ρ bufs w o s) (hB : B ∈ bufs) (hc : o.current = B.obj)
    (hfit : (o.write piece).Fits bufs) :
    StreamInv s₀ b ρ bufs w (o.write piece)
      { s with
        sys := s.sys.setUnit B.posAtom 0 (B.start + (o.written B.obj).length + piece.length)
        bytes := Bytes.store s.bytes (B.base + (o.written B.obj).length) piece } := by
  have hlen : ∀ l l' : List XChar, (l ++ l').length = l.length + l'.length :=
    fun _ _ => List.length_append
  have hself : (o.write piece).written B.obj = o.written B.obj ++ piece := by
    rw [← hc]
    exact Function.update_self ..
  have hother : ∀ B' ∈ bufs, B.Apart B' → (o.write piece).written B'.obj = o.written B'.obj :=
    fun B' _ ha => Function.update_of_ne (hc ▸ ha.1.symm) _ _
  have hnil : (o.write piece).written nil = o.written nil :=
    Function.update_of_ne (hc ▸ (h.buffer_live hB).1.ne_nil.symm) _ _
  have hu := (h.buffer B hB).value
  -- the piece goes behind what the buffer holds, inside the room of the buffer
  have hroom : ∀ x, Bytes.In (B.base + (o.written B.obj).length) piece.length x →
      Bytes.In B.base B.room x := by
    rintro x ⟨h₁, h₂⟩
    have h₃ := hfit B hB
    rw [hself, hlen] at h₃
    exact ⟨by omega, by omega⟩
  constructor
  case tree =>
    obtain ⟨t, ht, hn⟩ := h.tree
    refine ⟨t, ht.congr fun q hq i u hq' => ?_, hn⟩
    dsimp only
    rw [unit_setUnit hu, if_neg fun e : q = B.posAtom ∧ _ => (hn B hB).2 (e.1 ▸ hq), hq']
  case full =>
    obtain ⟨t, ht, hn⟩ := h.tree
    rw [← h.full]
    simp only [Full, IsSet, typeOf_setUnit]
    rw [unit_setUnit hu, if_neg fun e : b = B.posAtom ∧ _ =>
      (hn B hB).2 (e.1 ▸ List.mem_cons_self ..)]
  case sinks => exact h.sinks
  case buffers => exact h.buffers.store
  constructor
  case files => rw [hnil]; exact h.files
  case contents =>
    intro B' hB'
    rcases h.buffers.eq_or_apart hB hB' with rfl | ha
    · rw [hself, Bytes.at_append]
      refine ⟨(h.contents B hB).store fun x hx hx' => ?_, Bytes.at_store⟩
      have h₁ := hx.2
      have h₂ := hx'.1
      omega
    · rw [hother B' hB' ha]
      refine (h.contents B' hB').store fun x hx hx' => ha.2.2 x (hroom x hx') ?_
      have h₃ := hfit B' hB'
      rw [hother B' hB' ha] at h₃
      exact ⟨hx.1, by have := hx.2; omega⟩
  case outside =>
    intro x hx
    have hx' := hx B hB
    rw [hself, hlen] at hx'
    dsimp only
    rw [Bytes.store_out fun hin => hx' ⟨by have := hin.1; omega, by have := hin.2; omega⟩]
    refine h.outside x fun B' hB' hin => ?_
    rcases h.buffers.eq_or_apart hB hB' with rfl | ha
    · exact hx' ⟨hin.1, by have := hin.2; omega⟩
    · exact hx B' hB' (by rwa [hother B' hB' ha])
  case buffer =>
    intro B' hB'
    have hobj : ∀ i, (s.sys.setUnit B.posAtom 0
        (B.start + (o.written B.obj).length + piece.length)).unit B'.obj i =
        s.sys.unit B'.obj i := fun i => by
      rw [unit_setUnit hu, if_neg fun e => h.buffers.pos B hB B' hB' e.1.symm]
    rcases h.buffers.eq_or_apart hB hB' with rfl | ha
    · refine ⟨(hobj 0).trans (h.buffer B hB).first, (hobj 1).trans (h.buffer B hB).rest, ?_⟩
      dsimp only
      rw [unit_setUnit hu, if_pos ⟨rfl, rfl⟩, hself, hlen]
      simp [add_assoc]
    · rw [hother B' hB' ha]
      refine (h.buffer B' hB').congr hobj ?_
      dsimp only
      rw [unit_setUnit hu, if_neg fun e => ha.2.1 e.1.symm]

/-- A write to the current destination returns its source. -/
theorem xBaseWrite_run (h : StreamInv s₀ b ρ bufs w o s) (htaken : ∀ n : Nat, taken n = n)
    (hfd : (ρ .fileout).current = .int w) (hs : Source bufs s args atom piece)
    (hfit : (o.write piece).Fits bufs) :
    ∃ s', xBaseWrite taken b args s = .ok atom s' ∧
      StreamInv s₀ b ρ bufs w (o.write piece) s' := by
  obtain ⟨r, k, hr, hk, hsize⟩ := hs.size
  obtain ⟨src, hsrc, htext, hapart⟩ := hs.text
  have hcast : toSizeT piece.length = piece.length := by
    have := hs.max
    unfold toSizeT xIntMax at *
    omega
  have hsz : (do xFirst (← xFirst (← xRest args)) : M Word) s.sys = .ok piece.length s.sys := by
    rw [Prog.bind_of_ok (xRest_eq hr), Prog.bind_of_ok (xFirst_eq hk)]
    exact xFirst_eq hsize
  have hrun : ∀ {r}, (if o.current ≠ nil then do
        let dst ← onSys (xFirst o.current)
        let pos ← onSys (do xFirst (← xRest o.current))
        xLibMemcpy (dst + pos) (← onSys (xFirst atom)) (toSizeT piece.length)
        onSys (do setXFirst (← xRest o.current) (pos + piece.length))
        return atom
      else do
        let fd ← onSys (baseFd .fileout stdoutFileno b)
        if (← xSysWrite taken fd (← onSys (xFirst atom)) (toSizeT piece.length)) =
            (piece.length : Int) then
          return atom
        return nil : IoM Ptr) s = r → xBaseWrite taken b args s = r := by
    rintro r rfl
    unfold xBaseWrite
    rw [Prog.bind_of_ok (onSys_read (xFirst_eq hs.first)), Prog.bind_of_ok (onSys_read hsz),
      Prog.bind_of_ok (onSys_read h.writeBuf_run)]
  rcases h.sinks o.current (.head _) with hc | ⟨B, hB, hc⟩
  · refine ⟨_, hrun ?_, h.writeFile hc⟩
    rw [if_neg (not_not.mpr hc), Prog.bind_of_ok (onSys_read (h.fd_run hfd _)),
      Prog.bind_of_ok (onSys_read (xFirst_eq hsrc)), hcast,
      Prog.bind_of_ok (xSysWrite_run htaken htext), if_pos rfl]
    rfl
  · refine ⟨_, hrun ?_, h.writeBuffer hB hc.symm hfit⟩
    obtain ⟨hfirst, hrest, hval⟩ := h.buffer B hB
    have hself : (o.write piece).written B.obj = o.written B.obj ++ piece := by
      rw [hc]
      exact Function.update_self ..
    have hroom := hfit B hB
    rw [hself, List.length_append] at hroom
    have haddr : B.dst + (B.start + (o.written B.obj).length) =
        B.base + (o.written B.obj).length := (add_assoc B.dst B.start _).symm
    have hin : ∀ x, Bytes.In (B.base + (o.written B.obj).length) piece.length x →
        Bytes.In B.base B.room x := by
      rintro x ⟨h₁, h₂⟩
      exact ⟨by omega, by omega⟩
    have hpos : (do xFirst (← xRest B.obj) : M Word) s.sys =
        .ok (B.start + (o.written B.obj).length) s.sys := by
      rw [Prog.bind_of_ok (xRest_eq hrest)]
      exact xFirst_eq hval
    rw [← hc, if_pos (h.buffer_live hB).1.ne_nil, Prog.bind_of_ok (onSys_read (xFirst_eq hfirst)),
      Prog.bind_of_ok (onSys_read hpos), Prog.bind_of_ok (onSys_read (xFirst_eq hsrc)), hcast,
      haddr, Prog.bind_of_ok (xLibMemcpy_run htext (fun x hx => h.buffers.mapped B hB x (hin x hx))
        fun x hx hx' => hapart B hB x hx (hin x hx'))]
    have hset : ∀ v, (do setXFirst (← xRest B.obj) v : M Unit) s.sys =
        .ok () (s.sys.setUnit B.posAtom 0 v) := by
      intro v
      rw [Prog.bind_of_ok (xRest_eq hrest)]
      exact setXObjDataI_eq hval
    exact Prog.bind_of_ok (onSys_ok (hset _))

/-! ### The field -/

/-- An operation on the field that leaves the buffers alone. -/
theorem switch {sys : Sys} (h : StreamInv s₀ b ρ bufs w o s)
    (hw : o'.written = o.written) (hsinks : ∀ p ∈ o'.current :: o'.saved, IsSink bufs p)
    (htree : ∃ t, BaseTree sys b t (o'.record ρ (s₀.sys.Full b)).cell ∧
      ∀ B ∈ bufs, B.obj ∉ b :: t.nodes ∧ B.posAtom ∉ b :: t.nodes)
    (htype : sys.typeOf b = s.sys.typeOf b)
    (hobj : ∀ B ∈ bufs, ∀ i, sys.unit B.obj i = s.sys.unit B.obj i)
    (hpos : ∀ B ∈ bufs, sys.unit B.posAtom 0 = s.sys.unit B.posAtom 0) :
    StreamInv s₀ b ρ bufs w o' { s with sys := sys } where
  files := hw ▸ h.files
  contents := hw ▸ h.contents
  outside := hw ▸ h.outside
  buffer := fun B hB => by
    rw [hw]
    exact (h.buffer B hB).congr (hobj B hB) (hpos B hB)
  tree := htree
  full := by
    obtain ⟨t, ht, -⟩ := htree
    rw [← h.full, Full, Full, htype]
    exact and_congr_right fun _ => iff_of_true ht.isSet h.isSet
  sinks := hsinks
  buffers := h.buffers

/-- The same for a store into a node of the base. -/
theorem switchUnit {t t' : Cells Word} {n : Ptr} {u v : Word} (h : StreamInv s₀ b ρ bufs w o s)
    (hn : ∀ B ∈ bufs, B.obj ∉ b :: t.nodes ∧ B.posAtom ∉ b :: t.nodes)
    (hw : o'.written = o.written) (hsinks : ∀ p ∈ o'.current :: o'.saved, IsSink bufs p)
    (hmem : n ∈ b :: t.nodes) (hu : s.sys.unit n 0 = some v)
    (ht' : BaseTree (s.sys.setUnit n 0 u) b t' (o'.record ρ (s₀.sys.Full b)).cell)
    (hsub : t'.nodes ⊆ b :: t.nodes) :
    StreamInv s₀ b ρ bufs w o' { s with sys := s.sys.setUnit n 0 u } := by
  have hsub' : b :: t'.nodes ⊆ b :: t.nodes :=
    List.cons_subset.mpr ⟨List.mem_cons_self .., hsub⟩
  refine h.switch hw hsinks ⟨t', ht', fun B hB => ?_⟩ typeOf_setUnit (fun B hB i => ?_)
    fun B hB => ?_
  · exact ⟨fun hx => (hn B hB).1 (hsub' hx), fun hx => (hn B hB).2 (hsub' hx)⟩
  · rw [unit_setUnit hu, if_neg fun e : B.obj = n ∧ _ => (hn B hB).1 (e.1 ▸ hmem)]
  · rw [unit_setUnit hu, if_neg fun e : B.posAtom = n ∧ _ => (hn B hB).2 (e.1 ▸ hmem)]

theorem install (h : StreamInv s₀ b ρ bufs w o s) (hp : IsSink bufs p)
    (hr : onSys (Field.writeBuf.setObj b p) s = .ok () s') :
    StreamInv s₀ b ρ bufs w (o.install p) s' := by
  obtain ⟨t, ht, hn⟩ := h.tree
  obtain ⟨c, hrun, hmem, ⟨v, hv⟩, t', ht', hsub⟩ := ht.assigned .writeBuf p
  rw [onSys_ok hrun] at hr
  cases hr
  rw [Output.record_install] at ht'
  refine h.switchUnit hn rfl ?_ hmem hv ht' hsub
  exact List.forall_mem_cons.mpr ⟨hp, fun x hx => h.sinks x (.tail _ hx)⟩

theorem pop {slot r u : Ptr} {us : List Ptr} (h : StreamInv s₀ b ρ bufs w o s)
    (hs : o.saved = u :: us) (ha : Field.writeBuf.addr b s.sys = .ok slot s.sys)
    (hr : onSys (xObjPopField slot) s = .ok r s') :
    StreamInv s₀ b ρ bufs w ⟨u, us, o.written, o.pushed⟩ s' := by
  obtain ⟨t, ht, hn⟩ := h.tree
  obtain ⟨n, r', v, haddr, hmem, hrun, ⟨x, hx⟩, t', ht', hsub⟩ := ht.popped .writeBuf
    (show _ = Value.obj u :: us.map .obj by rw [Output.record_writeBuf, hs]; rfl)
  cases ha.symm.trans haddr
  rw [onSys_ok hrun] at hr
  cases hr
  have hrec : Function.update (o.record ρ (s₀.sys.Full b)) .writeBuf ⟨.obj u, us.map .obj⟩ =
      (⟨u, us, o.written, o.pushed⟩ : Output).record ρ (s₀.sys.Full b) := by
    rw [Output.record, Function.update_idem]
    rfl
  rw [hrec] at ht'
  exact h.switchUnit hn rfl (fun p hp => h.sinks p (.tail _ (hs ▸ hp))) (.tail _ hmem) hx ht' hsub

theorem push {slot r : Ptr} {fl : Flags} (h : StreamInv s₀ b ρ bufs w o s)
    (hc : ρ.Counts (s₀.sys.Full b)) (hp : IsSink bufs p)
    (ha : Field.writeBuf.addr b s.sys = .ok slot s.sys)
    (hr : onSys (xObjPushField env b slot p fl) s = .ok r s') :
    StreamInv s₀ b ρ bufs w (o.push p) s' := by
  obtain ⟨t, ht, hn⟩ := h.tree
  obtain ⟨hr, hs'⟩ := onSys_inv hr
  have hcounts : (o.record ρ (s₀.sys.Full b)).Counts (s.sys.Full b) :=
    Output.record_counts fun hf => hc (h.full.mp hf)
  obtain ⟨n, q, a, s₁, u, hm, he, hunit, t', ht', hnodes⟩ :=
    ht.pushField hcounts (by decide) ha hr
  rw [hs']
  have hnew : ∀ x, s.sys.Live x → x ≠ q := fun x hx e => hm.new (e ▸ hx)
  refine h.switch rfl ?_ ⟨t', ?_, fun B hB => ?_⟩ ?_ (fun B hB i => ?_) fun B hB => ?_
  · exact List.forall_mem_cons.mpr ⟨hp, h.sinks⟩
  · convert ht' using 2
    rw [← Output.record_push]
    congr 2
    exact (if_congr h.full rfl rfl).symm
  · have hlive := h.buffer_live hB
    have hno : ∀ x, s.sys.Live x → x ∉ b :: t.nodes → x ∉ b :: t'.nodes := by
      intro x hx hxt hx'
      rcases List.mem_cons.mp hx' with rfl | hx'
      · exact hxt (List.mem_cons_self ..)
      · exact (hnodes x hx').elim (hnew x hx) hxt
    exact ⟨hno _ hlive.1 (hn B hB).1, hno _ hlive.2 (hn B hB).2⟩
  · rw [he, typeOf_setUnit, hm.typeOf_old b (hnew b ht.live)]
  · exact hunit _ i (h.buffer_live hB).1 (hn B hB).1
  · exact hunit _ 0 (h.buffer_live hB).2 (hn B hB).2

end StreamInv

/-! ## Runs -/

theorem OutputStart.inv (h : OutputStart s b ρ bufs w o) : StreamInv s b ρ bufs w o s := by
  have hrec : o.record ρ (s.sys.Full b) = ρ := by
    have hz : (if s.sys.Full b then (o.pushed : Int) else 0) = 0 := by
      rw [h.pushed]
      split <;> rfl
    rw [Output.record, hz, Record.addCount_zero, ← h.writeBuf, Function.update_eq_self]
  constructor
  case tree => rw [hrec]; exact h.tree
  case full => exact Iff.rfl
  case sinks => exact h.sinks
  case buffers => exact h.buffers
  constructor
  case files => rw [h.written, List.append_nil, Function.update_eq_self]
  case contents =>
    intro B _
    rw [h.written]
    exact Bytes.at_nil
  case outside => exact fun _ _ => rfl
  case buffer =>
    intro B hB
    rw [h.written]
    simpa using h.buffer B hB

/-- What a destination was given stays there. -/
theorem OutputOp.apply_prefix (h : op.apply o = some o') (p : Ptr) :
    o.written p <+: o'.written p := by
  cases op with
  | write piece =>
    obtain rfl := Option.some.inj h
    by_cases hp : p = o.current
    · subst hp
      exact ⟨piece, by simp [Output.write]⟩
    · exact ⟨[], by simp [Output.write, Function.update_of_ne hp]⟩
  | install buf =>
    obtain rfl := Option.some.inj h
    exact List.prefix_rfl
  | push buf =>
    obtain rfl := Option.some.inj h
    exact List.prefix_rfl
  | pop =>
    obtain ⟨c, _ | ⟨u, us⟩, written, pushed⟩ := o
    · cases h
    · obtain rfl := Option.some.inj h
      exact List.prefix_rfl

theorem Output.Fits.of_apply (h : op.apply o = some o') (hf : o'.Fits bufs) : o.Fits bufs :=
  fun B hB => (OutputOp.apply_prefix h B.obj).length_le.trans (hf B hB)

/-- An operation does to the memory what it does to the destinations. -/
theorem StreamInv.step (h : StreamInv s₀ b ρ bufs w o s) (htaken : ∀ n : Nat, taken n = n)
    (hfd : (ρ .fileout).current = .int w) (hc : ρ.Counts (s₀.sys.Full b))
    (ha : op.apply o = some o') (hfit : o'.Fits bufs) (hr : op.Run env taken b bufs s s') :
    StreamInv s₀ b ρ bufs w o' s' := by
  cases hr with
  | write hs hrun =>
    obtain rfl := Option.some.inj ha
    obtain ⟨s₁, hrun₁, h₁⟩ := h.xBaseWrite_run htaken hfd hs hfit
    cases hrun.symm.trans hrun₁
    exact h₁
  | install hb hrun =>
    obtain rfl := Option.some.inj ha
    exact h.install hb hrun
  | push hb hs hrun =>
    obtain rfl := Option.some.inj ha
    exact h.push hc hb hs hrun
  | pop hs hrun =>
    obtain ⟨c, _ | ⟨u, us⟩, written, pushed⟩ := o
    · cases ha
    · obtain rfl := Option.some.inj ha
      exact h.pop rfl hs hrun

/-- After every run each destination holds the pieces that were written while it was the current
one, the fields of the base are as they were but for the write-buf field and the count, and the
next write returns its source. -/
theorem write_streams {ops : List OutputOp} (htaken : ∀ n : Nat, taken n = n)
    (h : OutputStart s₀ b ρ bufs w o)
    (hr : Prog.Runs (OutputOp.Run env taken b bufs) (fun _ _ => False) ops s₀ s)
    (ha : ops.foldlM (fun o op => op.apply o) o = some o') (hfit : o'.Fits bufs) :
    Streams s₀ bufs (toCInt w) o' s ∧ Represents s.sys b (o'.record ρ (s₀.sys.Full b)) ∧
    ∀ args atom piece, Source bufs s args atom piece → (o'.write piece).Fits bufs →
      ∃ s', xBaseWrite taken b args s = .ok atom s' := by
  have hinv : o'.Fits bufs → StreamInv s₀ b ρ bufs w o' s := by
    refine hr.simulates (R := fun s o => o.Fits bufs → StreamInv s₀ b ρ bufs w o s) ?_ ?_
      (fun _ => h.inv) ha
    · exact fun _ _ _ _ hno => False.elim hno
    · intro op s s' o o' hi ha hr hf
      exact (hi (hf.of_apply ha)).step htaken h.fileout h.counts ha hf hr
  have hinv := hinv hfit
  obtain ⟨t, ht, -⟩ := hinv.tree
  refine ⟨hinv.toStreams, ht.represents, fun args atom piece hs hf => ?_⟩
  obtain ⟨s', hrun, -⟩ := hinv.xBaseWrite_run htaken h.fileout hs hf
  exact ⟨s', hrun⟩

/-- A buffer of eight bytes at 1000, behind the pair at 64, and an argument list at 192 for the two
characters at 2000. -/
def outputMemory : Sys :=
  (((((Sys.empty.place 64 ⟨nil, xTypePairObj, xObjFlagNone, [], [1000, 128]⟩).place 128
    ⟨nil, xTypeAtomObj, xObjFlagNone, [], [0]⟩).place 192
    ⟨nil, xTypePairObj, xObjFlagNone, [], [256, 320]⟩).place 256
    ⟨nil, xTypeAtomObj, xObjFlagNone, [], [2000]⟩).place 320
    ⟨nil, xTypePairObj, xObjFlagNone, [], [384, nil]⟩).place 384
    ⟨nil, xTypeAtomObj, xObjFlagNone, [], [2]⟩

def outputBuffer : WriteBuffer := ⟨64, 128, 1000, 0, 8⟩

def outputIo (sys : Sys) : Io where
  sys := sys
  bytes := Bytes.store (Bytes.store (fun _ => none) 1000 (List.replicate 8 0)) 2000 [104, 105]
  files _ := []
  asked := []

theorem outputIo_buffers (sys : Sys) : Buffers [outputBuffer] (outputIo sys).bytes := by
  have hmem : ∀ B ∈ [outputBuffer], B = outputBuffer := by simp
  refine ⟨List.pairwise_singleton .., fun B hB B' hB' => ?_, fun B hB x hx => ?_⟩
  · rw [hmem B hB, hmem B' hB']
    decide
  · obtain rfl := hmem B hB
    have hx₁ : Bytes.In 1000 8 x := hx
    have h₁ : ¬ Bytes.In 2000 [(104 : XChar), 105].length x := fun h => by
      have := h.1
      have := hx₁.2
      omega
    obtain ⟨i, hi, rfl⟩ := Bytes.in_iff.mp hx₁
    refine ⟨0, ?_⟩
    change Bytes.store (Bytes.store _ 1000 _) 2000 _ _ = _
    rw [Bytes.store_out h₁, Bytes.store_in (by simpa using hi), List.getElem?_replicate_of_lt hi]

/-- On a full base in this memory the buffer is pushed. -/
theorem exists_output : ∃ b t s s', s = outputIo s.sys ∧ s.sys.Full b ∧
    BaseTree s.sys b t (Record.cell (.ofCfg .standard)) ∧
    OutputStart s b (.ofCfg .standard) [outputBuffer] 1 ⟨nil, [], fun _ => [], 0⟩ ∧
    OutputOp.Run (.plain fun _ => true) (fun n => n) b [outputBuffer] (.push 64) s s' ∧
    Source [outputBuffer] s' 192 256 [104, 105] := by
  obtain ⟨b, s₁, s', t, -, -, hfull, ht, hnew, hkeep⟩ := exists_full_base .standard outputMemory
  have hunit : ∀ {q i w}, outputMemory.unit q i = some w → s'.unit q i = some w := fun h =>
    (hkeep _ _ (live_of_unit h)).trans h
  have hmem : ∀ B ∈ [outputBuffer], B = outputBuffer := by simp
  have hb : outputBuffer.At s' 0 :=
    ⟨hunit (by decide), hunit (by decide), hunit (by decide)⟩
  have hstart : OutputStart (outputIo s') b (.ofCfg .standard) [outputBuffer] 1
      ⟨nil, [], fun _ => [], 0⟩ := by
    refine ⟨⟨t, ht, fun B hB => ?_⟩, fun _ => ⟨0, rfl⟩, rfl, rfl,
      fun p hp => .inl (by simpa using hp), outputIo_buffers s', fun B hB => ?_, fun _ => rfl, rfl⟩
    · rw [hmem B hB]
      exact ⟨fun hx => hnew _ hx (by decide), fun hx => hnew _ hx (by decide)⟩
    · rw [hmem B hB]
      exact hb
  obtain ⟨n, old, -, hn, hu, -, hnt, -⟩ := ht.nodeSlot .writeBuf
  have hextra : s'.extraOf b = 0 := by
    rw [extraOf, if_pos hfull, ht.currentInt (f := .objMetaExtra) rfl]
    rfl
  obtain ⟨p, a, s₂, hmake, hm⟩ := xObjMake_full (.plain fun _ => true) xTypePairObj xObjFlagNone
    [64, old] (ht.allocReady hfull) rfl (by simp [hextra])
  have haddr : Field.writeBuf.addr b s' = .ok (slotAddr n 0) s' :=
    Field.addr_ok.mpr ⟨n, hn, rfl, rfl⟩
  have hpush := xObjPushField_made (xSlot_run hu) hu hmake hm
  obtain ⟨-, -, -, -, -, -, -, hframe, -⟩ :=
    ht.pushField (fun _ => ⟨0, rfl⟩) (by decide) haddr hpush
  have hargs : ∀ {q i w}, outputMemory.unit q i = some w →
      (s₂.setUnit n 0 p).unit q i = some w := fun h =>
    (hframe _ _ (live_of_unit (hunit h)) fun hx => hnew _ hx (live_of_unit h)).trans (hunit h)
  refine ⟨b, t, outputIo s', _, rfl, hfull, ht, hstart,
    .push (.inr ⟨outputBuffer, .head _, rfl⟩) haddr (onSys_ok (s := outputIo s') hpush), ?_⟩
  refine ⟨hargs (by decide), ⟨320, 384, hargs (by decide), hargs (by decide), hargs (by decide)⟩,
    by decide, 2000, hargs (by decide), Bytes.at_store, fun B hB x hx hx' => ?_⟩
  obtain rfl := hmem B hB
  have h₁ := hx.1
  have h₂ : x < 1000 + 0 + 8 := hx'.2
  omega

/-- The pair of a push is counted: the count of the base does not stay 0. -/
theorem write_streams_fails : ∃ b s s', s.sys.Full b ∧
    OutputStart s b (.ofCfg .standard) [outputBuffer] 1 ⟨nil, [], fun _ => [], 0⟩ ∧
    Prog.Runs (OutputOp.Run (.plain fun _ => true) (fun n => n) b [outputBuffer])
      (fun _ _ => False) [.push 64] s s' ∧
    s.sys.fieldInt b .allocCount = some 0 ∧ s'.sys.fieldInt b .allocCount = some 1 := by
  obtain ⟨b, t, s, s', -, hfull, ht, hstart, hrun, -⟩ := exists_output
  have happly : OutputOp.apply (.push 64) ⟨nil, [], fun _ => [], 0⟩ =
      some ⟨64, [nil], fun _ => [], 1⟩ := rfl
  have hinv := hstart.inv.step (fun _ => rfl) rfl (fun _ => ⟨0, rfl⟩) happly
    (fun _ _ => Nat.zero_le _) hrun
  obtain ⟨t', ht', -⟩ := hinv.tree
  refine ⟨b, s, s', hfull, hstart, .cons hrun (.nil s'), ht.currentInt rfl, ht'.currentInt ?_⟩
  rw [Output.record, Function.update_of_ne (by decide), Record.addCount, Function.update_self,
    if_pos hfull]
  rfl

/-- Two characters go to a buffer that was pushed. -/
theorem write_streams_pushed : ∃ b s s', s.bytes 1000 = some 0 ∧
    Prog.Runs (OutputOp.Run (.plain fun _ => true) (fun n => n) b [outputBuffer])
      (fun _ _ => False) [.push 64, .write [104, 105]] s s' ∧
    Bytes.At s'.bytes 1000 [104, 105] ∧ outputBuffer.At s'.sys 2 ∧ s'.files = s.files := by
  obtain ⟨b, t, s, s', hs, hfull, ht, hstart, hrun, hsource⟩ := exists_output
  have hfit : ∀ o : Output, (o.written 64).length ≤ 8 → o.Fits [outputBuffer] := by
    intro o ho B hB
    obtain rfl : B = outputBuffer := by simpa using hB
    exact ho
  obtain ⟨-, -, hnext⟩ := write_streams (fun _ => rfl) hstart (.cons hrun (.nil s')) rfl
    (hfit _ (by decide))
  obtain ⟨s'', hwrite⟩ := hnext 192 256 [104, 105] hsource (hfit _ (by decide))
  have hruns : Prog.Runs (OutputOp.Run (.plain fun _ => true) (fun n => n) b [outputBuffer])
      (fun _ _ => False) [.push 64, .write [104, 105]] s s'' :=
    .cons hrun (.cons (.write hsource hwrite) (.nil s''))
  obtain ⟨hst, -, -⟩ := write_streams (fun _ => rfl) hstart hruns rfl (hfit _ (by decide))
  refine ⟨b, s, s'', ?_, hruns, hst.contents outputBuffer (.head _),
    hst.buffer outputBuffer (.head _), ?_⟩
  · rw [hs]
    rfl
  · have he := hst.files
    rwa [show ((Output.mk nil [] (fun _ => []) 0).push 64 |>.write [104, 105]).written nil = []
      from rfl, List.append_nil, Function.update_eq_self] at he

end XExpr
