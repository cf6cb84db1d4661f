import FieldExtract.Archive

/-!
# The synthetic archive

A field of a hundred points in which the valid runs, of one point and more, are parted by missing
runs that are longer by one each. It is archived for a number of forecast steps, under a key and at
a place in one file.
-/

namespace FieldExtract.Synthetic

def length : Nat := 100

def gaps : List Bool :=
  ((List.range 10).flatMap fun n =>
    List.replicate (n + 1) true ++ List.replicate (n + 2) false).take length

def samples : List Sample :=
  gaps.mapIdx fun i valid => if valid then Sample.ofInt i else Sample.missing

def mask : List Bool := validity samples

def key (step : String) : Key :=
  Key.ofList
    [("domain", .single "g"), ("levtype", .single "sfc"), ("date", .single "20230508"),
      ("time", .single "1200"), ("step", .single step), ("param", .single "151130"),
      ("class", .single "od"), ("type", .single "fc"), ("stream", .single "oper"),
      ("expver", .single "0001")]

def location (step : Nat) : Location := Location.ofFile "/archive/synth11.grib" (step * 1024)

def archive (steps : Nat) : Archive :=
  (List.range steps).foldl
    (fun a step =>
      (a.addField (key (toString step)) samples none).addFile (location step).path
        (location step).offset samples)
    Archive.empty

end FieldExtract.Synthetic
