import Mathlib.Data.List.Nodup

/-! # A memory in front of an append-only log

A writer that must not log a fact twice keeps the facts it has logged in memory,
and reads the memory back from the log when it starts.  Facts with one key are
one entry: the first of them is logged, later ones are not.

`Remembers` is what such a writer keeps when it notes a fact in memory before it
appends it, whatever becomes of the append: nothing is logged twice, and nothing
is logged that is not remembered.  The converse, that what is remembered is
logged, holds while no append has failed. -/
open List
namespace Zicato.WriteOnce

variable {F K : Type} {key : F → K}

/-- `memory'` is `memory` and one fact more, whose key was free. -/
structure Notes (key : F → K) (memory : F → Prop) (fact : F) (memory' : F → Prop) : Prop where
  fresh : ∀ g, memory g → key g ≠ key fact
  adds : ∀ g, memory' g ↔ memory g ∨ g = fact

/-- The memory of a writer and its log; `failed` says that an append has failed
since the memory was read, `alive` that the writer still runs. -/
structure Remembers (key : F → K) (log : List F) (memory : F → Prop) (alive failed : Prop) :
    Prop where
  once : (log.map key).Nodup
  known : ∀ f ∈ log, memory f
  covered : alive → ¬ failed → ∀ f, memory f → f ∈ log

variable {log : List F} {memory memory' : F → Prop} {alive failed : Prop} {fact : F}

theorem Notes.not_mem (hn : Notes key memory fact memory')
    (h : Remembers key log memory alive failed) : ∀ g ∈ log, key g ≠ key fact :=
  fun g hg => hn.fresh g (h.known g hg)

/-- The noted fact reaches the log, whether or not its append has failed. -/
theorem Remembers.logged (h : Remembers key log memory alive failed)
    (hn : Notes key memory fact memory') {alive' failed' : Prop} (ha : alive' → alive)
    (hf : failed → failed') : Remembers key (log ++ [fact]) memory' alive' failed' where
  once := by
    rw [map_append, map_singleton, nodup_append]
    refine ⟨h.once, nodup_singleton _, ?_⟩
    intro a hin b hb
    obtain ⟨g, hg, rfl⟩ := mem_map.mp hin
    rw [mem_singleton.mp hb]
    exact hn.not_mem h g hg
  known f hf := by
    rw [hn.adds]
    rcases mem_append.mp hf with hf | hf
    · exact .inl (h.known f hf)
    · exact .inr (mem_singleton.mp hf)
  covered hrun hok f hm := by
    rw [mem_append, mem_singleton]
    rcases (hn.adds f).mp hm with hm | rfl
    · exact .inl (h.covered (ha hrun) (fun hfailed => hok (hf hfailed)) f hm)
    · exact .inr rfl

/-- The noted fact does not reach the log: the append failed, or the writer is
dead. -/
theorem Remembers.lost (h : Remembers key log memory alive failed)
    (hn : Notes key memory fact memory') {alive' failed' : Prop} (hf : alive' → failed') :
    Remembers key log memory' alive' failed' where
  once := h.once
  known f hm := (hn.adds f).mpr (.inl (h.known f hm))
  covered hrun hok := absurd (hf hrun) hok

/-- The writer may die at any time. -/
theorem Remembers.dies (h : Remembers key log memory alive failed) {alive' : Prop}
    (ha : alive' → alive) : Remembers key log memory alive' failed where
  once := h.once
  known := h.known
  covered hrun := h.covered (ha hrun)

/-- A memory read back from a log without repetitions. -/
theorem Remembers.read (honce : (log.map key).Nodup) (hread : ∀ f, memory f ↔ f ∈ log)
    (alive : Prop) : Remembers key log memory alive False where
  once := honce
  known f hf := (hread f).mpr hf
  covered _ _ f hm := (hread f).mp hm

end Zicato.WriteOnce
