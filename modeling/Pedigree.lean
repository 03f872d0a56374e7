import Pedigree.Main
import Pedigree.Proofs.Drafts
import Pedigree.Proofs.Generations
import Pedigree.Proofs.Grammar
import Pedigree.Proofs.Layout
import Pedigree.Proofs.Marriages
import Pedigree.Proofs.Parentage
import Pedigree.Proofs.Places
import Pedigree.Proofs.Siblings
import Pedigree.Proofs.Chronologies
import Pedigree.Proofs.FamilyEdges
import Pedigree.Proofs.Outlines
import Pedigree.Proofs.Refusals
import Pedigree.Proofs.Strays
import Pedigree.Proofs.Viability
import Pedigree.Proofs.Blame
import Pedigree.Proofs.DateTokens
import Pedigree.Proofs.Quotations
import Pedigree.Proofs.Timelines
import Pedigree.Proofs.DatesInFull
import Pedigree.Proofs.Records
import Pedigree.Proofs.Anchors
import Pedigree.Proofs.Listings
import Pedigree.Proofs.Placements
import Pedigree.Proofs.Revisions
