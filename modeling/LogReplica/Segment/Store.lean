import LogReplica.Segment.Framed

namespace LogReplica

abbrev Store := Table SegmentId Framed

namespace Store

def within {α : Type} (segment : SegmentId) (f : Framed → Except SegmentError α × Framed)
    (store : Store) : Except SegmentError α × Store :=
  let (answer, store) := store.visit segment f
  (answer.getD (throw (.noSuchSegment segment)), store)

def createSegment (segment : SegmentId) (store : Store) : Bool × Store :=
  if (store.get? segment).isSome then (false, store) else (true, store.insert segment {})

def serve (segment : SegmentId) : (q : Request) → Store → Reply q × Store
  | .createSegment, store =>
    let (fresh, store) := store.createSegment segment
    (pure fresh, store)
  | .append expected data, store =>
    if data.length < Framed.payloadLimit then
      store.within segment fun f =>
        let (outcome, f) := f.append expected data
        (pure outcome, f)
    else (throw (.entryTooLarge data.length), store)
  | .readAt offset budget, store => store.within segment fun f => (f.readAt segment offset budget, f)
  | .tailOffset, store => store.within segment fun f => (pure f.tail, f)
  | .oldestOffset, store => store.within segment fun f => (pure f.start, f)
  | .getAttribute key, store => store.within segment fun f => (pure (f.attributes.get? key), f)
  | .compareAndSetAttribute key expected new, store =>
    store.within segment fun f =>
      let (swapped, f) := f.compareAndSet key expected new
      (pure swapped, f)
  | .truncateBefore offset, store => store.within segment (Framed.truncateBefore segment offset)

def entryCount (segment : SegmentId) (store : Store) : Except SegmentError Nat :=
  match store.get? segment with
  | some f => pure f.index.size
  | none => throw (.noSuchSegment segment)

end Store

end LogReplica
